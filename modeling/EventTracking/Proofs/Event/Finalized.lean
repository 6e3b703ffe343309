import EventTracking.Proofs.Event.Made

set_option autoImplicit false

namespace EventTracking

open Json (IsValue)

namespace Fields

theorem contains_iff {α : Type} {properties : Fields α} {key : String} :
    properties.contains key = true ↔ ∃ p ∈ properties.entries, p.1 = key := by
  simp [contains, find?, Entries.find?]

theorem clash?_le {declared : List String} {properties : Fields Json} {p q : String × Json}
    (found : properties.clash? declared = some p) (hq : q ∈ properties.entries)
    (clashing : q.1 ∈ declared) : p.1 = q.1 ∨ p.1 < q.1 := by
  obtain ⟨-, before, after, split, others⟩ := List.find?_eq_some_iff_append.1 found
  have sorted := properties.sorted
  rw [split] at hq sorted
  rcases List.mem_append.1 hq with earlier | later
  · have other := others q earlier
    simp [clashing] at other
  · rcases List.mem_cons.1 later with rfl | later
    · exact .inl rfl
    · have behind := (List.pairwise_append.1 sorted).2.1
      exact .inr (List.rel_of_pairwise_cons behind later)

theorem clash?_eq_none {declared : List String} {properties : Fields Json} :
    properties.clash? declared = none ↔ ∀ key ∈ declared, properties.contains key = false := by
  simp only [clash?, List.find?_eq_none, ← Bool.not_eq_true, contains_iff]
  constructor
  · rintro none key hkey ⟨p, hp, rfl⟩
    exact none p hp (by simpa using hkey)
  · intro none p hp clashing
    exact none p.1 (by simpa using clashing) ⟨p, hp, rfl⟩

end Fields

namespace UntrackedEvent

variable {e : UntrackedEvent}

theorem IsSound.clash_key (sound : e.IsSound) {p : String × Json} (hp : p ∈ e.properties.entries)
    (clashing : p.1 ∈ declaredKeys) : p.1 = "id" ∨ p.1 = "time" := by
  have own := (sound.properties p hp).1
  simp only [declaredKeys, ownKeys, List.mem_cons, List.not_mem_nil, or_false, not_or] at own clashing
  rcases clashing with type | id | time | locations | globals
  · exact absurd type own.1
  · exact .inl id
  · exact .inr time
  · exact absurd locations own.2.1
  · exact absurd globals own.2.2

theorem IsSound.clash?_key (sound : e.IsSound) :
    (e.properties.clash? declaredKeys).map Prod.fst =
      if e.properties.contains "id" then some "id"
      else if e.properties.contains "time" then some "time" else none := by
  cases found : e.properties.clash? declaredKeys with
  | none =>
    have free := Fields.clash?_eq_none.1 found
    rw [free "id" (by decide), free "time" (by decide)]
    rfl
  | some p =>
    have hp := List.mem_of_find?_eq_some found
    have clashing : p.1 ∈ declaredKeys := by simpa using List.find?_some found
    split
    · next id =>
      obtain ⟨q, hq, named⟩ := Fields.contains_iff.1 id
      have least := Fields.clash?_le found hq (by rw [named]; decide)
      rw [named] at least
      rcases sound.clash_key hp clashing with same | time
      · exact congrArg some same
      · rw [time] at least
        exact absurd least (by decide)
    · next noId =>
      rcases sound.clash_key hp clashing with id | time
      · exact absurd (Fields.contains_iff.2 ⟨p, hp, id⟩) noId
      · rw [if_pos (Fields.contains_iff.2 ⟨p, hp, time⟩)]
        exact congrArg some time

/-- What is read from the text of a finalized event: the event itself, unless it has a property
`id` or `time`, which a constructor never gives an event and reading may. -/
theorem Made.finalized_read_back (made : Made e) (id : String) {time : Int}
    (inside : -Nat.pow 2 63 ≤ time ∧ time < Nat.pow 2 63)
    (legible : (Event.stamp e id time).raw.IsLegible) :
    Event.ofText? (Event.stamp e id time).text =
      if e.properties.contains "id" then .error (.duplicateField "id")
      else if e.properties.contains "time" then .error (.duplicateField "time")
      else .ok (Event.stamp e id time) := by
  have result := Event.ofText?_text (made.isSound.stamp id inside) legible
  have key := made.isSound.clash?_key
  have clashing {name : String}
      (first : (e.properties.clash? declaredKeys).map Prod.fst = some name) :
      Event.ofText? (Event.stamp e id time).text = .error (.duplicateField name) := by
    obtain ⟨p, found, rfl⟩ := Option.map_eq_some_iff.1 first
    change (Event.stamp e id time).properties.clash? declaredKeys = some p at found
    rw [result, found]
  split
  · next hasId => exact clashing (by rw [key, if_pos hasId])
  · next noId =>
    split
    · next hasTime => exact clashing (by rw [key, if_neg noId, if_pos hasTime])
    · next noTime =>
      rw [if_neg noId, if_neg noTime] at key
      have free : (Event.stamp e id time).properties.clash? declaredKeys = none :=
        Option.map_eq_none_iff.1 key
      rw [result, free]

def sampleBuilt : UntrackedEvent := (interactive "x").withProperty "id" (.str "y")

def sampleRead : UntrackedEvent := ⟨"x", {}, Fields.ofList [("id", .str "y")]⟩

theorem finalized_read_back_sample :
    Event.ofText? (Event.stamp sampleBuilt "e" 0).text = .ok (Event.stamp sampleBuilt "e" 0) ∧
      Event.ofText? (Event.stamp sampleRead "e" 0).text = .error (.duplicateField "id") := by
  have text : IsValue (.str "y") := .str "y"
  have converted : ofJson? (.obj [("_type", .str "x"), ("id", .str "y")]) = .ok sampleRead := by
    rfl
  have value : IsValue (.obj [("_type", .str "x"), ("id", .str "y")]) := by
    apply IsValue.obj
    · exact List.pairwise_pair.2 (by decide)
    · simp [IsValue.str]
  have built : (Event.stamp sampleBuilt "e" 0).raw.IsLegible := .of_exact (by decide) (by decide)
  have read : (Event.stamp sampleRead "e" 0).raw.IsLegible := .of_exact (by decide) (by decide)
  constructor
  · exact Made.finalized_read_back ((Made.interactive "x").withProperty "id" text) "e" (by decide)
      built
  · exact Made.finalized_read_back (.convert value converted) "e" (by decide) read

end UntrackedEvent

end EventTracking
