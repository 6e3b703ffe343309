import EventTracking.Event.Schema
import EventTracking.Proofs.Json.Sound

set_option autoImplicit false

namespace EventTracking

open Json (IsValue Source ReadError)

def Context.raw (c : Context) : Json := .obj c.record

def Event.raw (e : Event) : Json := .obj (e.recordWith Context.raw)

def Fields.clash? (declared : List String) (properties : Fields Json) : Option (String × Json) :=
  properties.entries.find? fun p => declared.contains p.1

structure Context.IsSound (c : Context) : Prop where
  values : ∀ p ∈ c.properties.entries, IsValue p.2
  noClash : c.properties.clash? Context.declaredKeys = none

structure Contexts.IsSound (c : Contexts) : Prop where
  locations : ∀ x ∈ c.locations, x.IsSound
  globals : ∀ x ∈ c.globals, x.IsSound

structure Event.IsSound (e : Event) : Prop where
  contexts : e.contexts.IsSound
  values : ∀ p ∈ e.properties.entries, IsValue p.2
  time : -Nat.pow 2 63 ≤ e.time ∧ e.time < Nat.pow 2 63

-- Whether the reader of JSON reads what it prints of a value: its floating point numbers are read
-- as they are printed, and it is not nested too deeply.
structure Json.IsLegible (v : Json) : Prop where
  floats : ∀ x, .float x ∈ v.parts → Json.ofText? x.text = .ok (.float x)
  flat : v.height ≤ Source.maxDepth

def Json.isFloat : Json → Bool
  | .float _ => true
  | _ => false

theorem Json.IsLegible.of_exact {v : Json} (exact : ∀ part ∈ v.parts, ¬ part.isFloat)
    (flat : v.height ≤ Source.maxDepth) : v.IsLegible :=
  ⟨fun _ inside => absurd rfl (exact _ inside), flat⟩

theorem ofEntries_append (a b : List (String × Json)) :
    Source.ofEntries (a ++ b) = Source.ofEntries a ++ Source.ofEntries b := by
  induction a with
  | nil => rfl
  | cons p a ih =>
    rw [List.cons_append, Source.ofEntries, ih]
    rfl

theorem not_declared {declared : List String} {properties : Fields Json}
    (none : properties.clash? declared = none) {p : String × Json} (hp : p ∈ properties.entries) :
    p.1 ∉ declared := by
  have other := List.find?_eq_none.1 none p hp
  simpa using other

theorem ofList_reverse_reverse (properties : Fields Json) :
    Fields.ofList (properties.entries.reverse ++ []).reverse = properties := by
  apply Fields.ext
  have same := Entries.ofList_eq_self properties.sorted
  simpa [Fields.ofList] using same

namespace Context

theorem entry_property (d : Draft) {key : String} (other : key ∉ declaredKeys) {v : Json}
    (value : IsValue v) :
    d.entry (some key, Source.ofJson v) = .ok { d with others := (key, v) :: d.others } := by
  simp only [declaredKeys, List.mem_cons, List.not_mem_nil, or_false, not_or] at other
  simp only [Draft.entry, other.1, other.2, if_false,
    Source.json_ofJson v fun entries => value.ordered entries]
  rfl

theorem entries_properties {properties : List (String × Json)}
    (others : ∀ p ∈ properties, p.1 ∉ declaredKeys) (values : ∀ p ∈ properties, IsValue p.2)
    (d : Draft) :
    (Source.ofEntries properties).foldlM Draft.entry d =
      .ok { d with others := properties.reverse ++ d.others } := by
  induction properties generalizing d with
  | nil => rfl
  | cons p properties ih =>
    rw [Source.ofEntries, List.foldlM_cons,
      entry_property d (others p (by simp)) (values p (by simp))]
    change (Source.ofEntries properties).foldlM Draft.entry _ = _
    rw [ih (fun q hq => others q (by simp [hq])) fun q hq => values q (by simp [hq])]
    simp

theorem read_raw {c : Context} (sound : c.IsSound) : read (Source.ofJson c.raw) = .ok c := by
  have declared : (Source.ofEntries [("_type", .str c.type), ("id", .str c.id)]).foldlM Draft.entry
      {} = .ok { type := some c.type, id := some c.id } := rfl
  have properties := entries_properties
    (fun p hp => not_declared sound.noClash hp) sound.values { type := some c.type, id := some c.id }
  have entries : (Source.ofEntries c.record).foldlM Draft.entry {} = .ok
      { type := some c.type, id := some c.id, others := c.properties.entries.reverse ++ [] } := by
    rw [record, ofEntries_append, List.foldlM_append, declared]
    exact properties
  change ((Source.ofEntries c.record).foldlM Draft.entry {} >>= _) = _
  rw [entries]
  change Except.ok (Context.mk c.type c.id (Fields.ofList _)) = _
  rw [ofList_reverse_reverse]

theorem bounded_raw {c : Context} (sound : c.IsSound) (n : Int) (inside : .int n ∈ c.raw.parts) :
    Json.minInt ≤ n ∧ n ≤ Json.maxInt := by
  obtain ⟨p, hp, inside⟩ := Json.mem_entriesParts.1 (by simpa [raw, Json.parts] using inside)
  simp only [record, List.cons_append, List.nil_append, List.mem_cons] at hp
  rcases hp with rfl | rfl | property
  · simp [Json.parts] at inside
  · simp [Json.parts] at inside
  · exact (sound.values p property).bounded n inside

theorem read_raws {contexts : List Context} (sound : ∀ c ∈ contexts, c.IsSound) :
    (Source.ofJson (.arr (contexts.map raw))).list read = .ok contexts := by
  have items : (Source.ofItems (contexts.map raw)).mapM read = .ok contexts := by
    induction contexts with
    | nil => rfl
    | cons c contexts ih =>
      rw [List.map_cons, Source.ofItems, List.mapM_cons, read_raw (sound c (by simp)),
        ih fun d hd => sound d (by simp [hd])]
      rfl
  change ((Source.ofItems (contexts.map raw)).mapM read >>= _) = _
  rw [items]
  rfl

end Context

namespace EventDraft

structure IsFull (d : EventDraft) : Prop where
  type : d.type.isSome
  id : d.id.isSome
  time : d.time.isSome
  locations : d.locations.isSome
  globals : d.globals.isSome

theorem once_isSome {α : Type} {o : Option α} (there : o.isSome) (name : String) :
    once name o = .error (.duplicateField name) := by
  cases o with
  | none => cases there
  | some a => rfl

theorem IsFull.entry_declared {d : EventDraft} (full : d.IsFull) {key : String}
    (declared : key ∈ UntrackedEvent.declaredKeys) (s : Source) :
    d.entry true (some key, s) = .error (.duplicateField key) := by
  simp only [UntrackedEvent.declaredKeys, List.mem_cons, List.not_mem_nil, or_false] at declared
  rcases declared with rfl | rfl | rfl | rfl | rfl
  · simp [entry, once_isSome full.type, bind, Except.bind]
  · simp [entry, once_isSome full.id, bind, Except.bind]
  · simp [entry, once_isSome full.time, bind, Except.bind]
  · simp [entry, once_isSome full.locations, bind, Except.bind]
  · simp [entry, once_isSome full.globals, bind, Except.bind]

theorem entry_property (d : EventDraft) {key : String}
    (other : key ∉ UntrackedEvent.declaredKeys) {v : Json} (value : IsValue v) :
    d.entry true (some key, Source.ofJson v) = .ok { d with others := (key, v) :: d.others } := by
  simp only [UntrackedEvent.declaredKeys, List.mem_cons, List.not_mem_nil, or_false, not_or] at other
  obtain ⟨type, id, time, locations, globals⟩ := other
  simp only [entry, type, id, time, locations, globals, if_false, and_false,
    Source.json_ofJson v fun entries => value.ordered entries]
  rfl

theorem IsFull.entries {properties : List (String × Json)}
    (values : ∀ p ∈ properties, IsValue p.2) {d : EventDraft} (full : d.IsFull) :
    (Source.ofEntries properties).foldlM (EventDraft.entry true) d =
      match properties.find? fun p => UntrackedEvent.declaredKeys.contains p.1 with
      | none => .ok { d with others := properties.reverse ++ d.others }
      | some p => .error (.duplicateField p.1) := by
  induction properties generalizing d with
  | nil => rfl
  | cons p properties ih =>
    rw [Source.ofEntries, List.foldlM_cons, List.find?_cons]
    by_cases declared : p.1 ∈ UntrackedEvent.declaredKeys
    · have found : UntrackedEvent.declaredKeys.contains p.1 = true := by simpa using declared
      rw [full.entry_declared declared, found]
      rfl
    · have other : UntrackedEvent.declaredKeys.contains p.1 = false := by simpa using declared
      rw [entry_property d declared (values p (by simp)), other]
      have full' : IsFull { d with others := p :: d.others } := { full with }
      change (Source.ofEntries properties).foldlM (EventDraft.entry true) _ = _
      rw [ih (fun q hq => values q (by simp [hq])) full']
      simp

end EventDraft

namespace Event

def declaredEntries (e : Event) : List (String × Json) :=
  [("_type", .str e.type), ("id", .str e.id), ("time", .int e.time)] ++
    e.contexts.recordWith Context.raw

theorem read_declared {e : Event} (contexts : e.contexts.IsSound)
    (time : -Nat.pow 2 63 ≤ e.time ∧ e.time < Nat.pow 2 63) :
    (Source.ofEntries e.declaredEntries).foldlM (EventDraft.entry true) {} =
      .ok ⟨some e.type, some e.id, some e.time, some e.contexts.locations,
        some e.contexts.globals, []⟩ := by
  have integer : (Source.ofJson (.int e.time)).integer = .ok e.time := if_pos time
  have locations := Context.read_raws contexts.locations
  have globals := Context.read_raws contexts.globals
  have string (s : String) : (Source.ofJson (.str s)).string = .ok s := rfl
  simp [declaredEntries, Contexts.recordWith, Source.ofEntries, EventDraft.entry, once, bind,
    Except.bind, pure, Except.pure, string, integer, locations, globals]

theorem read_raw {e : Event} (sound : e.IsSound) :
    read (Source.ofJson e.raw) = match e.properties.clash? UntrackedEvent.declaredKeys with
      | none => .ok e
      | some p => .error (.duplicateField p.1) := by
  have behind := EventDraft.IsFull.entries sound.values
    (d := ⟨some e.type, some e.id, some e.time, some e.contexts.locations,
      some e.contexts.globals, []⟩) ⟨rfl, rfl, rfl, rfl, rfl⟩
  have whole : e.recordWith Context.raw = e.declaredEntries ++ e.properties.entries := rfl
  change ((Source.ofEntries (e.recordWith Context.raw)).foldlM (EventDraft.entry true) {} >>= _) = _
  rw [whole, ofEntries_append, List.foldlM_append, read_declared sound.contexts sound.time]
  change ((Source.ofEntries e.properties.entries).foldlM (EventDraft.entry true) _ >>= _) = _
  rw [behind, Fields.clash?]
  split
  · change Except.ok (Event.mk e.type e.id e.time e.contexts (Fields.ofList _)) = _
    rw [ofList_reverse_reverse]
  · rfl

theorem bounded_raw {e : Event} (sound : e.IsSound) (n : Int) (inside : .int n ∈ e.raw.parts) :
    Json.minInt ≤ n ∧ n ≤ Json.maxInt := by
  have contexts {l : List Context} (all : ∀ c ∈ l, c.IsSound)
      (inside : .int n ∈ (Json.arr (l.map Context.raw)).parts) :
      Json.minInt ≤ n ∧ n ≤ Json.maxInt := by
    obtain ⟨v, hv, inside⟩ := Json.mem_itemsParts.1 (by simpa [Json.parts] using inside)
    obtain ⟨c, hc, rfl⟩ := List.mem_map.1 hv
    exact Context.bounded_raw (all c hc) n inside
  obtain ⟨p, hp, inside⟩ := Json.mem_entriesParts.1 (by simpa [raw, Json.parts] using inside)
  simp only [recordWith, Contexts.recordWith, List.cons_append, List.nil_append,
    List.mem_cons] at hp
  rcases hp with rfl | rfl | rfl | rfl | rfl | property
  · simp [Json.parts] at inside
  · simp [Json.parts] at inside
  · obtain rfl : n = e.time := by simpa [Json.parts] using inside
    have least : Json.minInt = -Nat.pow 2 63 := rfl
    have most : Json.maxInt = Nat.pow 2 64 - 1 := rfl
    have wide : ((Nat.pow 2 63 : Nat) : Int) ≤ (Nat.pow 2 64 : Nat) - 1 := by decide
    have time := sound.time
    omega
  · exact contexts sound.contexts.locations inside
  · exact contexts sound.contexts.globals inside
  · exact (sound.values p property).bounded n inside

theorem ofText?_text {e : Event} (sound : e.IsSound) (legible : e.raw.IsLegible) :
    ofText? e.text = match e.properties.clash? UntrackedEvent.declaredKeys with
      | none => .ok e
      | some p => .error (.duplicateField p.1) := by
  change Json.readText read e.raw.text = _
  rw [Json.readText_text read ⟨bounded_raw sound, legible.floats⟩ legible.flat]
  exact read_raw sound

theorem listText_eq (events : List Event) : listText events = (Json.arr (events.map raw)).text := by
  have items : ",".intercalate (events.map text) = Json.itemsText (events.map raw) := by
    induction events with
    | nil => rfl
    | cons e events ih =>
      cases events with
      | nil => exact String.intercalate_singleton
      | cons f events =>
        simp only [List.map_cons] at ih ⊢
        have more : Json.itemsText (e.raw :: f.raw :: events.map raw) =
            e.text ++ "," ++ Json.itemsText (f.raw :: events.map raw) := rfl
        rw [String.intercalate_cons_cons, ih, more]
  rw [listText, Json.listText, items]
  rfl

theorem listOfText?_listText {events : List Event}
    (sound : ∀ e ∈ events, e.IsSound ∧ e.properties.clash? UntrackedEvent.declaredKeys = none)
    (legible : (Json.arr (events.map raw)).IsLegible) :
    listOfText? (listText events) = .ok events := by
  have bounded (n : Int) (inside : .int n ∈ (Json.arr (events.map raw)).parts) :
      Json.minInt ≤ n ∧ n ≤ Json.maxInt := by
    obtain ⟨v, hv, inside⟩ := Json.mem_itemsParts.1 (by simpa [Json.parts] using inside)
    obtain ⟨e, he, rfl⟩ := List.mem_map.1 hv
    exact bounded_raw (sound e he).1 n inside
  have items : (Source.ofItems (events.map raw)).mapM read = .ok events := by
    clear legible bounded
    induction events with
    | nil => rfl
    | cons e events ih =>
      obtain ⟨first, noClash⟩ := sound e (by simp)
      rw [List.map_cons, Source.ofItems, List.mapM_cons, read_raw first, noClash,
        ih fun f hf => sound f (by simp [hf])]
      rfl
  rw [listOfText?, listText_eq, Json.readText_text _ ⟨bounded, legible.floats⟩ legible.flat]
  change ((Source.ofItems (events.map raw)).mapM read >>= _) = _
  rw [items]
  rfl

end Event

end EventTracking
