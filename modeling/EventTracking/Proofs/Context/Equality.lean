import EventTracking.Context.Equality
import EventTracking.Proofs.Event.Made
import Mathlib.Data.List.Perm.Subperm

set_option autoImplicit false

namespace EventTracking

namespace Entries

variable {α : Type} {entries : List (String × α)}

theorem find?_nil (key : String) : find? key ([] : List (String × α)) = none := rfl

theorem find?_append (key : String) (a b : List (String × α)) :
    find? key (a ++ b) = (find? key a).or (find? key b) := by
  cases found : a.find? fun e => e.1 == key <;> simp [find?, List.find?_append, found]

theorem mem_of_find? {key : String} {value : α} (found : find? key entries = some value) :
    (key, value) ∈ entries := by
  obtain ⟨e, first, rfl⟩ := Option.map_eq_some_iff.1 found
  have named : e.1 = key := by simpa using List.find?_some first
  exact named ▸ List.mem_of_find?_eq_some first

theorem find?_of_mem (sorted : Sorted entries) {e : String × α} (mem : e ∈ entries) :
    find? e.1 entries = some e.2 := by
  induction entries with
  | nil => cases mem
  | cons head rest ih =>
    obtain ⟨above, behind⟩ := List.pairwise_cons.1 sorted
    rw [find?_cons]
    rcases List.mem_cons.1 mem with rfl | later
    · rw [if_pos rfl]
    · have other : e.1 ≠ head.1 := fun same => String.lt_irrefl _ (same ▸ above e later)
      rw [if_neg other, ih behind later]

theorem find?_of_below {key : String} (below : ∀ e ∈ entries, key < e.1) :
    find? key entries = none := by
  cases found : find? key entries with
  | none => rfl
  | some value => exact absurd (below _ (mem_of_find? found)) (String.lt_irrefl key)

theorem find?_ofList (key : String) (entries : List (String × α)) :
    find? key (ofList entries) = find? key entries.reverse := by
  induction entries using List.reverseRecOn with
  | nil => rfl
  | append_singleton entries e ih =>
    have last : ofList (entries ++ [e]) = insert e.1 e.2 (ofList entries) := by simp [ofList]
    rw [last, find?_insert, List.reverse_append, List.reverse_singleton, List.singleton_append,
      find?_cons, ih]

theorem find?_reverse (sorted : Sorted entries) (key : String) :
    find? key entries.reverse = find? key entries := by
  rw [← find?_ofList, ofList_eq_self sorted]

end Entries

namespace Json

theorem find?_ofEntries_append (declared : List (String × Json)) (properties : Fields Json)
    (key : String) :
    (ofEntries (declared ++ properties.entries)).find? key =
      (properties.find? key).or (Entries.find? key declared.reverse) := by
  change Entries.find? key (Entries.ofList _) = _
  rw [Entries.find?_ofList, List.reverse_append, Entries.find?_append,
    Entries.find?_reverse properties.sorted]
  rfl

def Alike : Option Json → Option Json → Prop := Option.Rel fun v w => v.same w = true

theorem Alike.isSome_iff {v w : Option Json} (alike : Alike v w) : v.isSome ↔ w.isSome := by
  cases alike <;> simp

theorem sameEntries_head {k l : String} {v w : Json} {a b : List (String × Json)}
    (sortedA : Entries.Sorted ((k, v) :: a)) (sortedB : Entries.Sorted ((l, w) :: b))
    (alike : ∀ key, Alike (Entries.find? key ((k, v) :: a)) (Entries.find? key ((l, w) :: b))) :
    k = l := by
  have above {k l : String} {v w : Json} {a b : List (String × Json)}
      (sorted : Entries.Sorted ((l, w) :: b))
      (found : (Entries.find? k ((k, v) :: a)).isSome → (Entries.find? k ((l, w) :: b)).isSome) :
      ¬ k < l := by
    intro less
    have below : ∀ e ∈ (l, w) :: b, k < e.1 := by
      intro e mem
      rcases List.mem_cons.1 mem with rfl | later
      · exact less
      · exact String.lt_trans less ((List.pairwise_cons.1 sorted).1 e later)
    simp [Entries.find?_of_below below, Entries.find?_cons] at found
  apply String.le_antisymm
  · exact String.not_lt.1 (above sortedA (alike l).isSome_iff.2)
  · exact String.not_lt.1 (above sortedB (alike k).isSome_iff.1)

theorem sameEntries_iff {a b : List (String × Json)} (sortedA : Entries.Sorted a)
    (sortedB : Entries.Sorted b) :
    sameEntries a b = true ↔ ∀ key, Alike (Entries.find? key a) (Entries.find? key b) := by
  induction a generalizing b with
  | nil =>
    cases b with
    | nil => exact ⟨fun _ _ => .none, fun _ => rfl⟩
    | cons e b =>
      refine ⟨fun same => by simp [sameEntries] at same, fun alike => ?_⟩
      have none := (alike e.1).isSome_iff
      simp [Entries.find?_nil, Entries.find?_cons] at none
  | cons d a ih =>
    obtain ⟨k, v⟩ := d
    obtain ⟨aboveA, behindA⟩ := List.pairwise_cons.1 sortedA
    cases b with
    | nil =>
      refine ⟨fun same => by simp [sameEntries] at same, fun alike => ?_⟩
      have none := (alike k).isSome_iff
      simp [Entries.find?_nil, Entries.find?_cons] at none
    | cons e b =>
      obtain ⟨l, w⟩ := e
      obtain ⟨aboveB, behindB⟩ := List.pairwise_cons.1 sortedB
      simp only [sameEntries, Bool.and_eq_true, beq_iff_eq, ih behindA behindB]
      constructor
      · rintro ⟨⟨rfl, same⟩, rest⟩ key
        rw [Entries.find?_cons, Entries.find?_cons]
        split
        · exact .some same
        · exact rest key
      · intro alike
        obtain rfl := sameEntries_head sortedA sortedB alike
        refine ⟨⟨rfl, ?_⟩, fun key => ?_⟩
        · simpa [Entries.find?_cons, Alike] using alike k
        · by_cases here : key = k
          · rw [here, Entries.find?_of_below aboveA, Entries.find?_of_below aboveB]
            exact .none
          · simpa [Entries.find?_cons, here] using alike key

section Public

variable {a b : List (String × Json)}

def publicKeys (entries : List (String × Json)) : List String := (publicEntries entries).map Prod.fst

theorem mem_publicKeys {key : String} (sorted : Entries.Sorted a) :
    key ∈ publicKeys a ↔ ¬ isReserved key ∧ (Entries.find? key a).isSome := by
  simp only [publicKeys, publicEntries, List.mem_map, List.mem_filter]
  constructor
  · rintro ⟨e, ⟨mem, shown⟩, rfl⟩
    exact ⟨by simpa using shown, by simp [Entries.find?_of_mem sorted mem]⟩
  · rintro ⟨shown, some⟩
    obtain ⟨value, found⟩ := Option.isSome_iff_exists.1 some
    exact ⟨_, ⟨Entries.mem_of_find? found, by simpa using shown⟩, rfl⟩

theorem nodup_publicKeys (sorted : Entries.Sorted a) : (publicKeys a).Nodup := by
  apply List.pairwise_map.2
  apply (List.Pairwise.filter _ sorted).imp
  intro d e less same
  exact String.lt_irrefl e.1 (same ▸ less)

theorem publicKeys_subset (sorted : Entries.Sorted a)
    (count : (publicEntries a).length = (publicEntries b).length)
    (inside : publicKeys a ⊆ publicKeys b) : publicKeys b ⊆ publicKeys a := by
  have few : (publicKeys b).length ≤ (publicKeys a).length := by simp [publicKeys, count]
  exact (((nodup_publicKeys sorted).subperm inside).perm_of_length_le few).symm.subset

theorem publicEntries_iff (sortedA : Entries.Sorted a) (sortedB : Entries.Sorted b) :
    ((publicEntries a).length = (publicEntries b).length ∧
      ∀ e ∈ publicEntries a, (Entries.find? e.1 b).any e.2.same) ↔
    ∀ key, ¬ isReserved key → Alike (Entries.find? key a) (Entries.find? key b) := by
  constructor
  · rintro ⟨count, all⟩ key shown
    have there {value : Json} {key : String} (shown : ¬ isReserved key)
        (found : Entries.find? key a = some value) :
        ∃ other, Entries.find? key b = some other ∧ value.same other := by
      have known := all (key, value)
        (List.mem_filter.2 ⟨Entries.mem_of_find? found, by simpa using shown⟩)
      simpa [Option.any_eq_true] using known
    have inside : publicKeys a ⊆ publicKeys b := by
      intro key mem
      obtain ⟨shown, some⟩ := (mem_publicKeys sortedA).1 mem
      obtain ⟨value, found⟩ := Option.isSome_iff_exists.1 some
      obtain ⟨other, foundB, -⟩ := there shown found
      exact (mem_publicKeys sortedB).2 ⟨shown, by simp [foundB]⟩
    cases foundA : Entries.find? key a with
    | some value =>
      obtain ⟨other, foundB, same⟩ := there shown foundA
      exact foundB ▸ .some same
    | none =>
      cases foundB : Entries.find? key b with
      | none => exact .none
      | some other =>
        have mem := publicKeys_subset sortedA count inside
          ((mem_publicKeys sortedB).2 ⟨shown, by simp [foundB]⟩)
        simp [mem_publicKeys sortedA, foundA] at mem
  · intro alike
    constructor
    · have keys : (publicKeys a).Perm (publicKeys b) := by
        rw [List.perm_ext_iff_of_nodup (nodup_publicKeys sortedA) (nodup_publicKeys sortedB)]
        intro key
        rw [mem_publicKeys sortedA, mem_publicKeys sortedB]
        exact and_congr_right fun shown => (alike key shown).isSome_iff
      simpa [publicKeys] using keys.length_eq
    · intro e mem
      obtain ⟨mem, shown⟩ := List.mem_filter.1 mem
      have known := alike e.1 (by simpa using shown)
      rw [Entries.find?_of_mem sortedA mem] at known
      cases found : Entries.find? e.1 b with
      | none => simp [found, Alike] at known
      | some other => simpa [found, Alike] using known

end Public

end Json

namespace Context

variable {a b c : Context}

theorem find?_json (c : Context) (key : String) :
    c.json.find? key =
      (c.property? key).or (Entries.find? key [("id", .str c.id), ("_type", .str c.type)]) :=
  Json.find?_ofEntries_append _ c.properties key

theorem IsSound.property?_declared (sound : c.IsSound) {key : String} (declared : key ∈ declaredKeys) :
    c.property? key = none := by
  cases found : c.property? key with
  | none => rfl
  | some value =>
    exact absurd declared (not_declared sound.noClash (Entries.mem_of_find? found))

theorem IsSound.find?_type (sound : c.IsSound) : c.json.find? "_type" = some (.str c.type) := by
  rw [find?_json, sound.property?_declared (by decide)]
  rfl

theorem IsSound.find?_id (sound : c.IsSound) : c.json.find? "id" = some (.str c.id) := by
  rw [find?_json, sound.property?_declared (by decide)]
  rfl

theorem find?_other (c : Context) {key : String} (other : key ∉ declaredKeys) :
    c.json.find? key = c.property? key := by
  simp only [declaredKeys, List.mem_cons, List.not_mem_nil, or_false, not_or] at other
  rw [find?_json]
  simp [Entries.find?_cons, Entries.find?_nil, other]

theorem IsSound.isContext_json (sound : c.IsSound) : c.json.isContext := by
  have type : Entries.find? "_type" (Entries.ofList c.record) = _ := sound.find?_type
  have id : Entries.find? "id" (Entries.ofList c.record) = _ := sound.find?_id
  simp [json, Json.ofEntries, Json.isContext, type, id, Json.isStr, Json.str?]

theorem IsSound.isContextEqual_json_iff (soundA : a.IsSound) (soundB : b.IsSound) :
    Json.isContextEqual a.json b.json ↔
      ∀ key, ¬ isReserved key → Json.Alike (a.json.find? key) (b.json.find? key) := by
  have objects := Json.publicEntries_iff (Entries.sorted_ofList a.record)
    (Entries.sorted_ofList b.record)
  simp only [Json.isContextEqual, soundA.isContext_json, soundB.isContext_json, Bool.and_true,
    Bool.true_and]
  simpa [json, Json.ofEntries, Json.find?] using objects

theorem same_iff_properties :
    (a == b) ↔ a.type = b.type ∧ a.id = b.id ∧
      ∀ key, Json.Alike (a.property? key) (b.property? key) := by
  change a.same b ↔ _
  simp only [same, Bool.and_eq_true, beq_iff_eq, Fields.same, and_assoc,
    Json.sameEntries_iff a.properties.sorted b.properties.sorted]
  rfl

/-- Contexts are equal when their values are and they agree under every reserved key. -/
theorem Made.equal_iff (madeA : a.Made) (madeB : b.Made) :
    (a == b) ↔ Json.isContextEqual a.json b.json ∧
      ∀ key, isReserved key → Json.Alike (a.property? key) (b.property? key) := by
  have soundA := madeA.isSound
  have soundB := madeB.isSound
  rw [same_iff_properties, soundA.isContextEqual_json_iff soundB]
  constructor
  · rintro ⟨type, id, alike⟩
    refine ⟨fun key _ => ?_, fun key _ => alike key⟩
    by_cases declared : key ∈ declaredKeys
    · rcases List.mem_pair.1 declared with rfl | rfl
      · simp [soundA.find?_type, soundB.find?_type, type, Json.Alike, Json.same]
      · simp [soundA.find?_id, soundB.find?_id, id, Json.Alike, Json.same]
    · rw [find?_other a declared, find?_other b declared]
      exact alike key
  · rintro ⟨shown, reserved⟩
    have type := shown "_type" (by decide)
    have id := shown "id" (by decide)
    rw [soundA.find?_type, soundB.find?_type] at type
    rw [soundA.find?_id, soundB.find?_id] at id
    refine ⟨by simpa [Json.Alike, Json.same] using type, by simpa [Json.Alike, Json.same] using id,
      fun key => ?_⟩
    by_cases hidden : isReserved key
    · exact reserved key hidden
    · by_cases declared : key ∈ declaredKeys
      · rw [soundA.property?_declared declared, soundB.property?_declared declared]
        exact .none
      · rw [← find?_other a declared, ← find?_other b declared]
        exact shown key hidden

def sampleMarked : Context := (new "T" "i").withProperty "__k" (.int 1)

theorem equal_iff_sample :
    Json.isContextEqual sampleMarked.json (new "T" "i").json ∧ ¬ sampleMarked == new "T" "i" := by
  have marked : sampleMarked.Made :=
    (Made.new "T" "i").withProperty "__k" (.int (by decide) (by decide))
  refine ⟨by decide, fun same => ?_⟩
  have agree := ((marked.equal_iff (.new "T" "i")).1 same).2 "__k" (by decide)
  have one : sampleMarked.property? "__k" = some (.int 1) := by rfl
  have none : (new "T" "i").property? "__k" = none := by rfl
  simp [one, none, Json.Alike] at agree

end Context

end EventTracking
