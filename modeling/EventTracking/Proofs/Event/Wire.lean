import EventTracking.Event.Wire
import EventTracking.Proofs.Context.Value
import EventTracking.Proofs.Event.Finalized

set_option autoImplicit false

namespace EventTracking

open Json (IsValue)

namespace Json

-- One step down into a value.
inductive Step where
  | index (i : Nat)
  | key (name : String)

def at? : List Step → Json → Option Json
  | [], v => some v
  | .index i :: path, arr items => items[i]?.bind (at? path)
  | .key name :: path, obj entries => (Entries.find? name entries).bind (at? path)
  | _ :: _, _ => none

-- What can be told of a value without a step down into it.
inductive Outline where
  | scalar (v : Json)
  | array (length : Nat)
  | object

def outline : Json → Outline
  | arr items => .array items.length
  | obj _ => .object
  | v => .scalar v

def Step.isReserved : Step → Bool
  | index _ => false
  | key name => EventTracking.isReserved name

def IsPublic (v : Json) : Prop :=
  ∀ entries, obj entries ∈ v.parts → ∀ e ∈ entries, ¬ isReserved e.1

theorem stripItems_eq (items : List Json) : stripItems items = items.map strip := by
  induction items with
  | nil => rfl
  | cons v items ih => rw [stripItems, ih, List.map_cons]

theorem find?_stripEntries {key : String} (shown : ¬ isReserved key)
    (entries : List (String × Json)) :
    Entries.find? key (stripEntries entries) = (Entries.find? key entries).map strip := by
  induction entries with
  | nil => rfl
  | cons e entries ih =>
    obtain ⟨name, v⟩ := e
    rw [stripEntries, Entries.find?_cons]
    split
    · next hidden =>
      have other : key ≠ name := fun same => shown (same ▸ hidden)
      rw [if_neg other, ih]
    · rw [Entries.find?_cons, ih]
      split <;> rfl

theorem find?_strip {key : String} (shown : ¬ isReserved key) (v : Json) :
    v.strip.find? key = (v.find? key).map strip := by
  cases v with
  | obj entries => exact find?_stripEntries shown entries
  | null | bool | int | float | str | arr => rfl

theorem outline_strip (v : Json) : v.strip.outline = v.outline := by
  cases v with
  | arr items => simp [strip, outline, stripItems_eq]
  | null | bool | int | float | str | obj => rfl

theorem at?_strip {path : List Step} (shown : ∀ step ∈ path, ¬ step.isReserved) (v : Json) :
    at? path v.strip = (at? path v).map strip := by
  induction path generalizing v with
  | nil => rfl
  | cons step path ih =>
    have rest (w : Json) := ih (fun s hs => shown s (by simp [hs])) w
    cases step with
    | index i =>
      cases v with
      | arr items =>
        simp only [strip, at?, stripItems_eq, List.getElem?_map]
        cases items[i]? with
        | none => rfl
        | some w => exact rest w
      | null | bool | int | float | str | obj => rfl
    | key name =>
      cases v with
      | obj entries =>
        simp only [strip, at?, find?_stripEntries (shown (.key name) (by simp))]
        cases Entries.find? name entries with
        | none => rfl
        | some w => exact rest w
      | null | bool | int | float | str | arr => rfl

theorem IsPublic.arr {items : List Json} (h : ∀ v ∈ items, IsPublic v) : IsPublic (.arr items) := by
  intro entries inside
  obtain ⟨v, hv, inside⟩ := mem_itemsParts.1 (by simpa [parts] using inside)
  exact h v hv entries inside

theorem IsPublic.obj {entries : List (String × Json)}
    (h : ∀ e ∈ entries, ¬ isReserved e.1 ∧ IsPublic e.2) : IsPublic (.obj entries) := by
  intro inner inside
  rcases List.mem_cons.1 inside with same | within
  · cases same
    exact fun e he => (h e he).1
  · obtain ⟨e, he, within⟩ := mem_entriesParts.1 within
    exact (h e he).2 inner within

mutual

theorem isPublic_strip : (v : Json) → IsPublic v.strip
  | .arr items => .arr (isPublic_stripItems items)
  | .obj entries => .obj (isPublic_stripEntries entries)
  | .null | .bool _ | .int _ | .float _ | .str _ => by simp [IsPublic, strip, parts]

theorem isPublic_stripItems : (items : List Json) → ∀ v ∈ stripItems items, IsPublic v
  | [] => by simp [stripItems]
  | v :: items => by
    rw [stripItems]
    exact List.forall_mem_cons.2 ⟨isPublic_strip v, isPublic_stripItems items⟩

theorem isPublic_stripEntries : (entries : List (String × Json)) →
    ∀ e ∈ stripEntries entries, ¬ isReserved e.1 ∧ IsPublic e.2
  | [] => by simp [stripEntries]
  | (key, v) :: entries => by
    rw [stripEntries]
    split
    · exact isPublic_stripEntries entries
    · next shown =>
      exact List.forall_mem_cons.2 ⟨⟨shown, isPublic_strip v⟩, isPublic_stripEntries entries⟩

end

mutual

theorem strip_strip : (v : Json) → v.strip.strip = v.strip
  | .arr items => congrArg Json.arr (stripItems_stripItems items)
  | .obj entries => congrArg Json.obj (stripEntries_stripEntries entries)
  | .null | .bool _ | .int _ | .float _ | .str _ => rfl

theorem stripItems_stripItems : (items : List Json) →
    stripItems (stripItems items) = stripItems items
  | [] => rfl
  | v :: items => by
    simp only [stripItems]
    rw [strip_strip v, stripItems_stripItems items]

theorem stripEntries_stripEntries : (entries : List (String × Json)) →
    stripEntries (stripEntries entries) = stripEntries entries
  | [] => rfl
  | (key, v) :: entries => by
    rw [stripEntries]
    split
    · exact stripEntries_stripEntries entries
    · next shown =>
      rw [stripEntries, if_neg shown, strip_strip v, stripEntries_stripEntries entries]

end

end Json

namespace Event

/-- A collector gets every public key of an event, at every depth, and no other. -/
theorem wire_exactly (e : Event) :
    e.wire.IsPublic ∧
      (∀ path : List Json.Step, (∀ step ∈ path, ¬ step.isReserved) →
        (e.wire.at? path).map Json.outline = (e.json.at? path).map Json.outline) ∧
      e.wire.strip = e.wire := by
  refine ⟨Json.isPublic_strip e.json, fun path shown => ?_, Json.strip_strip e.json⟩
  rw [wire, Json.at?_strip shown, Option.map_map]
  exact congrFun (congrArg Option.map (funext Json.outline_strip)) _

def declaredFields (e : Event) : List (String × Json) :=
  [("global_contexts", .arr (e.contexts.globals.map Context.json)),
    ("location_stack", .arr (e.contexts.locations.map Context.json)), ("time", .int e.time),
    ("id", .str e.id), ("_type", .str e.type)]

theorem find?_wire (e : Event) {key : String} (shown : ¬ isReserved key) :
    e.wire.find? key =
      ((e.properties.find? key).or (Entries.find? key e.declaredFields)).map Json.strip := by
  rw [wire, Json.find?_strip shown]
  exact congrArg _ (Json.find?_ofEntries_append _ e.properties key)

end Event

namespace UntrackedEvent

variable {e : UntrackedEvent}

theorem IsSound.find?_own (sound : e.IsSound) {key : String} (own : key ∈ ownKeys) :
    e.properties.find? key = none := by
  cases found : e.properties.find? key with
  | none => rfl
  | some v => exact absurd own (sound.properties _ (Entries.mem_of_find? found)).1

theorem strip_contexts (contexts : List Context) :
    (Json.arr (contexts.map Context.json)).strip =
      .arr (contexts.map fun c => c.json.strip) := by
  rw [Json.strip, Json.stripItems_eq, List.map_map]
  rfl

/-- What a collector gets under the declared names: the type, the contexts, the id and the time,
unless the event was read with a property `id` or `time`, which goes before the event's own. -/
theorem Made.wire_fields (made : Made e) (id : String) (time : Int) :
    let wire := (Event.stamp e id time).wire
    wire.find? "_type" = some (.str e.type) ∧
      wire.find? "location_stack" = some (.arr (e.contexts.locations.map fun c => c.json.strip)) ∧
      wire.find? "global_contexts" = some (.arr (e.contexts.globals.map fun c => c.json.strip)) ∧
      wire.find? "id" = some (((e.properties.find? "id").map Json.strip).getD (.str id)) ∧
      wire.find? "time" = some (((e.properties.find? "time").map Json.strip).getD (.int time)) := by
  have properties : (Event.stamp e id time).properties = e.properties := rfl
  have own {key : String} (mem : key ∈ ownKeys) : e.properties.find? key = none :=
    made.isSound.find?_own mem
  refine ⟨?_, ?_, ?_, ?_, ?_⟩
  · rw [Event.find?_wire _ (by decide), properties, own (by decide)]
    rfl
  · rw [Event.find?_wire _ (by decide), properties, own (by decide), ← strip_contexts]
    rfl
  · rw [Event.find?_wire _ (by decide), properties, own (by decide), ← strip_contexts]
    rfl
  · rw [Event.find?_wire _ (by decide), properties]
    cases e.properties.find? "id" <;> rfl
  · rw [Event.find?_wire _ (by decide), properties]
    cases e.properties.find? "time" <;> rfl

def sampleLocated : UntrackedEvent := sampleRead.withLocation Context.sampleMarked

theorem wire_fields_sample :
    (Event.stamp sampleLocated "e" 0).wire.find? "location_stack" =
        some (.arr [.obj [("_type", .str "T"), ("id", .str "i")]]) ∧
      (Event.stamp sampleLocated "e" 0).wire.find? "id" = some (.str "y") ∧
      (Event.stamp sampleBuilt "e" 0).wire.find? "id" = some (.str "e") := by
  have converted : ofJson? (.obj [("_type", .str "x"), ("id", .str "y")]) = .ok sampleRead := by
    rfl
  have value : IsValue (.obj [("_type", .str "x"), ("id", .str "y")]) := by
    apply IsValue.obj
    · exact List.pairwise_pair.2 (by decide)
    · simp [IsValue.str]
  have marked : Context.sampleMarked.Made :=
    (Context.Made.new "T" "i").withProperty "__k" (.int (by decide) (by decide))
  have located := ((Made.convert value converted).withLocation marked).wire_fields "e" 0
  have built := ((Made.interactive "x").withProperty "id" (.str "y")).wire_fields "e" 0
  exact ⟨located.2.1, located.2.2.2.1, built.2.2.2.1⟩

end UntrackedEvent

end EventTracking
