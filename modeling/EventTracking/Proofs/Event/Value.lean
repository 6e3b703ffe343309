import EventTracking.Proofs.Context.Value

set_option autoImplicit false

namespace EventTracking

open Json (IsValue Source ReadError)

namespace Json

def isContextList : Json → Bool
  | arr items => items.all isContext
  | _ => false

def isTime : Json → Bool
  | int n => -Nat.pow 2 63 ≤ n && n < Nat.pow 2 63
  | _ => false

def isUntracked (v : Json) : Bool :=
  (v.find? "_type").any isStr && (v.find? "location_stack").all isContextList &&
    (v.find? "global_contexts").all isContextList

def isTracked (v : Json) : Bool :=
  v.isUntracked && (v.find? "id").any isStr && (v.find? "time").any isTime

def orEmpty (key : String) (entries : List (String × Json)) : List (String × Json) :=
  if (Entries.find? key entries).isSome then entries else Entries.insert key (.arr []) entries

-- The value with an empty list in place of each list of contexts that it lacks.
def withLists : Json → Json
  | obj entries => obj (orEmpty "location_stack" (orEmpty "global_contexts" entries))
  | v => v

end Json

theorem Entries.find?_orEmpty (k key : String) (entries : List (String × Json)) :
    Entries.find? k (Json.orEmpty key entries) =
      (Entries.find? k entries).or (if k = key then some (.arr []) else none) := by
  unfold Json.orEmpty
  split
  · next there =>
    by_cases here : k = key
    · obtain ⟨v, found⟩ := Option.isSome_iff_exists.1 there
      simp [here, found]
    · simp [here]
  · next missing =>
    rw [find?_insert]
    by_cases here : k = key
    · have none : Entries.find? key entries = none := by simpa using missing
      simp [here, none]
    · simp [here]

theorem Json.find?_withLists (key : String) (entries : List (String × Json)) :
    (Json.obj entries).withLists.find? key = (Entries.find? key entries).or
      (if key = "location_stack" ∨ key = "global_contexts" then some (.arr []) else none) := by
  change Entries.find? key (Json.orEmpty _ (Json.orEmpty _ entries)) = _
  rw [Entries.find?_orEmpty, Entries.find?_orEmpty, Option.or_assoc]
  congr 1
  grind

theorem Entries.sorted_orEmpty {key : String} {entries : List (String × Json)}
    (sorted : Sorted entries) : Sorted (Json.orEmpty key entries) := by
  unfold Json.orEmpty
  split
  · exact sorted
  · exact sorted_insert sorted

section Fields

variable {v : Json}

theorem eq_int_of_integer {n : Int} (run : (Source.ofJson v).integer = .ok n) : v = .int n := by
  cases v with
  | int m =>
    change (if _ then _ else _) = _ at run
    split at run <;> cases run
    rfl
  | null | bool | float | str | arr | obj => cases run

theorem integer_ok (isTime : v.isTime) : ∃ n, (Source.ofJson v).integer = .ok n := by
  cases v with
  | int n => exact ⟨n, if_pos (by simpa [Json.isTime] using isTime)⟩
  | null | bool | float | str | arr | obj => cases isTime

theorem contexts_ok (value : IsValue v) (isContextList : v.isContextList) :
    ∃ l, (Source.ofJson v).list Context.read = .ok l := by
  cases v with
  | arr items =>
    have each := List.all_eq_true.1 isContextList
    exact list_ok fun w hw => Context.ofJson?_ok (value.item hw) (each w hw)
  | null | bool | int | float | str | obj => cases isContextList

end Fields

namespace EventDraft

def declaredKeys (identified : Bool) : List String :=
  if identified then UntrackedEvent.declaredKeys else UntrackedEvent.ownKeys

theorem mem_declaredKeys {identified : Bool} {key : String} :
    key ∈ declaredKeys identified ↔ key = "_type" ∨ key = "location_stack" ∨
      key = "global_contexts" ∨ identified ∧ (key = "id" ∨ key = "time") := by
  cases identified <;>
    simp [declaredKeys, UntrackedEvent.declaredKeys, UntrackedEvent.ownKeys]
  tauto

def listed (contexts : List Context) : Json := .arr (contexts.map Context.json)

structure Holds (identified : Bool) (d : EventDraft) (seen : List (String × Json)) : Prop where
  type : d.type.map Json.str = Entries.find? "_type" seen
  locations : d.locations.map listed = Entries.find? "location_stack" seen
  globals : d.globals.map listed = Entries.find? "global_contexts" seen
  id : identified → d.id.map Json.str = Entries.find? "id" seen
  time : identified → d.time.map Json.int = Entries.find? "time" seen
  others : ∀ key, Entries.find? key d.others =
    if key ∈ declaredKeys identified then none else Entries.find? key seen

variable {identified : Bool} {d d' : EventDraft} {seen : List (String × Json)} {key : String}
  {v : Json}

theorem holds_nil : Holds identified {} [] := by
  constructor <;> simp [Entries.find?_nil]

inductive Entered (identified : Bool) (d : EventDraft) : String → Json → EventDraft → Prop where
  | type (s : String) : Entered identified d "_type" (.str s) { d with type := some s }
  | locations (l : List Context) :
      Entered identified d "location_stack" (listed l) { d with locations := some l }
  | globals (l : List Context) :
      Entered identified d "global_contexts" (listed l) { d with globals := some l }
  | id (s : String) (own : identified) :
      Entered identified d "id" (.str s) { d with id := some s }
  | time (n : Int) (own : identified) :
      Entered identified d "time" (.int n) { d with time := some n }
  | other {key : String} (v : Json) (other : key ∉ declaredKeys identified) :
      Entered identified d key v { d with others := (key, v) :: d.others }

theorem Entered.of_run (value : IsValue v)
    (run : d.entry identified (some key, Source.ofJson v) = .ok d') :
    Entered identified d key v d' := by
  have contexts {l : List Context} (read : (Source.ofJson v).list Context.read = .ok l) :
      v = listed l :=
    eq_arr_of_list (fun w hw c => Context.json_of_read hw) value read
  unfold EventDraft.entry at run
  dsimp only at run
  split at run
  · next isType =>
    obtain ⟨-, s, string, rfl⟩ := once_eq_ok.1 run
    rw [isType, eq_str_of_string string]
    exact .type s
  · split at run
    · next isLocations =>
      obtain ⟨-, l, list, rfl⟩ := once_eq_ok.1 run
      rw [isLocations, contexts list]
      exact .locations l
    · split at run
      · next isGlobals =>
        obtain ⟨-, l, list, rfl⟩ := once_eq_ok.1 run
        rw [isGlobals, contexts list]
        exact .globals l
      · split at run
        · next isId =>
          obtain ⟨-, s, string, rfl⟩ := once_eq_ok.1 run
          rw [isId.2, eq_str_of_string string]
          exact .id s isId.1
        · split at run
          · next isTime =>
            obtain ⟨-, n, integer, rfl⟩ := once_eq_ok.1 run
            rw [isTime.2, eq_int_of_integer integer]
            exact .time n isTime.1
          · obtain rfl := (json_eq_ok value).1 run
            refine .other v ?_
            rw [mem_declaredKeys]
            tauto

theorem Holds.entered (h : d.Holds identified seen) (entered : Entered identified d key v d') :
    d'.Holds identified ((key, v) :: seen) := by
  obtain ⟨type, locations, globals, id, time, others⟩ := h
  cases entered <;> constructor <;>
    simp only [Entries.find?_cons, mem_declaredKeys] at * <;> grind

theorem Holds.goesOn (h : d.Holds identified seen) (value : IsValue v)
    (new : Entries.find? key seen = none) (type : key = "_type" → v.isStr)
    (locations : key = "location_stack" → v.isContextList)
    (globals : key = "global_contexts" → v.isContextList)
    (id : identified → key = "id" → v.isStr) (time : identified → key = "time" → v.isTime) :
    ∃ d', d.entry identified (some key, Source.ofJson v) = .ok d' := by
  unfold EventDraft.entry
  dsimp only
  split
  · next here =>
    obtain ⟨s, string⟩ := string_ok (type here)
    have none : d.type = none := by simpa [← here, new] using h.type
    exact ⟨_, once_eq_ok.2 ⟨none, s, string, rfl⟩⟩
  · split
    · next here =>
      obtain ⟨l, list⟩ := contexts_ok value (locations here)
      have none : d.locations = none := by simpa [← here, new] using h.locations
      exact ⟨_, once_eq_ok.2 ⟨none, l, list, rfl⟩⟩
    · split
      · next here =>
        obtain ⟨l, list⟩ := contexts_ok value (globals here)
        have none : d.globals = none := by simpa [← here, new] using h.globals
        exact ⟨_, once_eq_ok.2 ⟨none, l, list, rfl⟩⟩
      · split
        · next here =>
          obtain ⟨s, string⟩ := string_ok (id here.1 here.2)
          have none : d.id = none := by simpa [← here.2, new] using h.id here.1
          exact ⟨_, once_eq_ok.2 ⟨none, s, string, rfl⟩⟩
        · split
          · next here =>
            obtain ⟨n, integer⟩ := integer_ok (time here.1 here.2)
            have none : d.time = none := by simpa [← here.2, new] using h.time here.1
            exact ⟨_, once_eq_ok.2 ⟨none, n, integer, rfl⟩⟩
          · exact ⟨_, (json_eq_ok value).2 rfl⟩

section Filling

variable {entries : List (String × Json)}

theorem holds_filled (value : IsValue (.obj entries))
    (filled : (Source.ofEntries entries).foldlM (EventDraft.entry identified) {} = .ok d) :
    d.Holds identified entries := by
  have sorted : Entries.Sorted entries := value.ordered entries (by simp [Json.parts])
  obtain ⟨type, locations, globals, id, time, others⟩ := foldlM_keeps
    (P := fun (d : EventDraft) seen => d.Holds identified seen)
    (fun mem h run => h.entered (.of_run (value.entry mem) run)) holds_nil filled
  simp only [List.append_nil, Entries.find?_reverse sorted] at type locations globals id time others
  exact ⟨type, locations, globals, id, time, others⟩

theorem filled_ok (value : IsValue (.obj entries)) (untracked : (Json.obj entries).isUntracked)
    (tracked : identified → (Json.obj entries).isTracked) :
    ∃ d, (Source.ofEntries entries).foldlM (EventDraft.entry identified) {} = .ok d := by
  have sorted : Entries.Sorted entries := value.ordered entries (by simp [Json.parts])
  simp only [Json.isTracked, Json.isUntracked, Json.find?, Bool.and_eq_true] at untracked tracked
  refine foldlM_ok (P := fun (d : EventDraft) seen => d.Holds identified seen)
    (fun mem h run => h.entered (.of_run (value.entry mem) run))
    (fun {d seen key w} mem h new => ?_) sorted
    (fun _ _ => rfl) holds_nil
  have found : Entries.find? key entries = some w := Entries.find?_of_mem sorted mem
  apply h.goesOn (value.entry mem) new
  · rintro rfl
    simpa [found] using untracked.1.1
  · rintro rfl
    simpa [found] using untracked.1.2
  · rintro rfl
    simpa [found] using untracked.2
  · rintro identified rfl
    simpa [found] using (tracked identified).1.2
  · rintro identified rfl
    simpa [found] using (tracked identified).2

theorem isContextList_listed {contexts : List Context} (sound : ∀ c ∈ contexts, c.IsSound) :
    (listed contexts).isContextList := by
  rw [listed, Json.isContextList, List.all_map, List.all_eq_true]
  exact fun c hc => (sound c hc).isContext_json

theorem all_listed {o : Option (List Context)} (sound : ∀ l ∈ o, ∀ c ∈ l, c.IsSound) :
    (o.map listed).all Json.isContextList := by
  cases o with
  | none => rfl
  | some l => exact isContextList_listed (sound l rfl)

theorem Holds.isUntracked (h : d.Holds identified entries) (sound : d.IsSound) {type : String}
    (hasType : d.type = some type) : (Json.obj entries).isUntracked := by
  simp only [Json.isUntracked, Json.find?, ← h.type, ← h.locations, ← h.globals, hasType,
    all_listed sound.locations, all_listed sound.globals]
  rfl

theorem Holds.isTracked (h : d.Holds true entries) (sound : d.IsSound) {type id : String}
    {time : Int} (hasType : d.type = some type) (hasId : d.id = some id)
    (hasTime : d.time = some time) : (Json.obj entries).isTracked := by
  have inside := sound.time time hasTime
  simp only [Json.isTracked, h.isUntracked sound hasType, Json.find?, ← h.id rfl, ← h.time rfl,
    hasId, hasTime]
  simpa [Json.isTime, Json.isStr, Json.str?] using inside

theorem Holds.find?_properties (h : d.Holds identified entries) (key : String) :
    d.properties.find? key =
      if key ∈ declaredKeys identified then none else Entries.find? key entries := by
  rw [properties, Fields.find?_ofList_reverse, h.others]

theorem find?_lists {o : Option (List Context)} {key : String}
    (same : o.map listed = Entries.find? key entries) :
    (Entries.find? key entries).or (some (.arr [])) = some (listed (o.getD [])) := by
  rw [← same]
  cases o <;> rfl

theorem Holds.json_eq (h : d.Holds identified entries) (sorted : Entries.Sorted entries)
    {declared : List (String × Json)}
    (own : ∀ key ∈ declaredKeys identified,
      Entries.find? key declared.reverse = (Json.obj entries).withLists.find? key)
    (others : ∀ key ∉ declaredKeys identified, Entries.find? key declared.reverse = none) :
    Json.ofEntries (declared ++ d.properties.entries) = (Json.obj entries).withLists := by
  refine congrArg Json.obj (Entries.ext_of_find? (Entries.sorted_ofList _)
    (Entries.sorted_orEmpty (Entries.sorted_orEmpty sorted)) fun key => ?_)
  change (Json.ofEntries (declared ++ d.properties.entries)).find? key =
    (Json.obj entries).withLists.find? key
  rw [Json.find?_ofEntries_append, h.find?_properties]
  by_cases declared : key ∈ declaredKeys identified
  · rw [if_pos declared, own key declared]
    rfl
  · have noList : ¬ (key = "location_stack" ∨ key = "global_contexts") := by
      rw [mem_declaredKeys] at declared
      tauto
    rw [if_neg declared, others key declared, Json.find?_withLists, if_neg noList, Option.or_none]

end Filling

end EventDraft

namespace Event

variable {v : Json} {e : Event}

theorem filled_of_read {entries : List (String × Json)} (run : ofJson? (.obj entries) = .ok e) :
    ∃ d : EventDraft, (Source.ofEntries entries).foldlM (EventDraft.entry true) {} = .ok d ∧
      d.type = some e.type ∧ d.id = some e.id ∧ d.time = some e.time ∧
      d.contexts = e.contexts ∧ d.properties = e.properties := by
  obtain ⟨d, filled, run⟩ := bind_eq_ok.1 run
  obtain ⟨_, _, run⟩ := bind_eq_ok.1 run
  obtain ⟨type, hasType, run⟩ := bind_eq_ok.1 run
  obtain ⟨id, hasId, run⟩ := bind_eq_ok.1 run
  obtain ⟨time, hasTime, run⟩ := bind_eq_ok.1 run
  cases run
  exact ⟨d, filled, required_eq_ok hasType, required_eq_ok hasId, required_eq_ok hasTime, rfl, rfl⟩

theorem json_of_read (value : IsValue v) (run : ofJson? v = .ok e) : e.json = v.withLists := by
  cases v with
  | obj entries =>
    obtain ⟨d, filled, type, id, time, contexts, properties⟩ := filled_of_read run
    have h := EventDraft.holds_filled value filled
    have hasType := type ▸ h.type
    have hasId := id ▸ h.id rfl
    have hasTime := time ▸ h.time rfl
    rw [json, recordWith, ← contexts, ← properties]
    apply h.json_eq (value.ordered entries (by simp [Json.parts]))
    · intro key declared
      rw [Json.find?_withLists]
      rcases EventDraft.mem_declaredKeys.1 declared with rfl | rfl | rfl | ⟨-, rfl | rfl⟩
      · rw [← hasType]
        rfl
      · rw [if_pos (.inl rfl), EventDraft.find?_lists h.locations]
        rfl
      · rw [if_pos (.inr rfl), EventDraft.find?_lists h.globals]
        rfl
      · rw [← hasId]
        rfl
      · rw [← hasTime]
        rfl
    · intro key other
      simp only [EventDraft.mem_declaredKeys, true_and, not_or] at other
      simp [Contexts.recordWith, Entries.find?_cons, Entries.find?_nil, other]
  | null | bool | int | float | str | arr => cases run

theorem isTracked_of_read (value : IsValue v) (run : ofJson? v = .ok e) : v.isTracked := by
  cases v with
  | obj entries =>
    obtain ⟨d, filled, type, id, time, -⟩ := filled_of_read run
    have sound := EventDraft.isSound_entries (Source.sound_ofJson value) filled
    exact (EventDraft.holds_filled value filled).isTracked sound type id time
  | null | bool | int | float | str | arr => cases run

theorem ofJson?_ok (value : IsValue v) (isTracked : v.isTracked) : ∃ e, ofJson? v = .ok e := by
  have isUntracked : v.isUntracked := by
    simp only [Json.isTracked, Bool.and_eq_true] at isTracked
    exact isTracked.1.1
  cases v with
  | obj entries =>
    obtain ⟨d, filled⟩ := EventDraft.filled_ok value isUntracked fun _ : true = true => isTracked
    have h := EventDraft.holds_filled value filled
    simp only [Json.isTracked, Json.isUntracked, Bool.and_eq_true] at isTracked
    obtain ⟨type, hasType⟩ := some_of_any h.type isTracked.1.1.1.1
    obtain ⟨id, hasId⟩ := some_of_any (h.id rfl) isTracked.1.2
    obtain ⟨time, hasTime⟩ := some_of_any (h.time rfl) isTracked.2
    refine ⟨⟨type, id, time, d.contexts, d.properties⟩, bind_eq_ok.2 ⟨d, filled, ?_⟩⟩
    simp [required, hasType, hasId, hasTime, Source.checkEnding, bind, Except.bind, pure,
      Except.pure]
  | null | bool | int | float | str | arr => cases isTracked

end Event

namespace UntrackedEvent

variable {v : Json} {e : UntrackedEvent}

theorem filled_of_read {entries : List (String × Json)} (run : ofJson? (.obj entries) = .ok e) :
    ∃ d : EventDraft, (Source.ofEntries entries).foldlM (EventDraft.entry false) {} = .ok d ∧
      d.type = some e.type ∧ d.contexts = e.contexts ∧ d.properties = e.properties := by
  obtain ⟨d, filled, run⟩ := bind_eq_ok.1 run
  obtain ⟨_, _, run⟩ := bind_eq_ok.1 run
  obtain ⟨type, hasType, run⟩ := bind_eq_ok.1 run
  cases run
  exact ⟨d, filled, required_eq_ok hasType, rfl, rfl⟩

theorem json_of_read (value : IsValue v) (run : ofJson? v = .ok e) : e.json = v.withLists := by
  cases v with
  | obj entries =>
    obtain ⟨d, filled, type, contexts, properties⟩ := filled_of_read run
    have h := EventDraft.holds_filled value filled
    have hasType := type ▸ h.type
    rw [json, recordWith, ← contexts, ← properties]
    apply h.json_eq (value.ordered entries (by simp [Json.parts]))
    · intro key declared
      rw [Json.find?_withLists]
      rcases EventDraft.mem_declaredKeys.1 declared with rfl | rfl | rfl | ⟨no, -⟩
      · rw [← hasType]
        rfl
      · rw [if_pos (.inl rfl), EventDraft.find?_lists h.locations]
        rfl
      · rw [if_pos (.inr rfl), EventDraft.find?_lists h.globals]
        rfl
      · cases no
    · intro key other
      simp only [EventDraft.mem_declaredKeys, not_or] at other
      simp [Contexts.recordWith, Entries.find?_cons, Entries.find?_nil, other]
  | null | bool | int | float | str | arr => cases run

theorem isUntracked_of_read (value : IsValue v) (run : ofJson? v = .ok e) : v.isUntracked := by
  cases v with
  | obj entries =>
    obtain ⟨d, filled, type, -⟩ := filled_of_read run
    have sound := EventDraft.isSound_entries (Source.sound_ofJson value) filled
    exact (EventDraft.holds_filled value filled).isUntracked sound type
  | null | bool | int | float | str | arr => cases run

theorem ofJson?_ok (value : IsValue v) (isUntracked : v.isUntracked) :
    ∃ e, ofJson? v = .ok e := by
  cases v with
  | obj entries =>
    obtain ⟨d, filled⟩ := EventDraft.filled_ok value isUntracked
      fun no : false = true => Bool.noConfusion no
    have h := EventDraft.holds_filled value filled
    simp only [Json.isUntracked, Bool.and_eq_true] at isUntracked
    obtain ⟨type, hasType⟩ := some_of_any h.type isUntracked.1.1
    refine ⟨⟨type, d.contexts, d.properties⟩, bind_eq_ok.2 ⟨d, filled, ?_⟩⟩
    simp [required, hasType, Source.checkEnding, bind, Except.bind, pure, Except.pure]
  | null | bool | int | float | str | arr => cases isUntracked

end UntrackedEvent

namespace Json

/-- Which values can be read as an event after tracking, before it, and as a context; and no entry
of a value that is read gets lost. -/
theorem read_exactly {v : Json} (value : IsValue v) :
    ((∃ e, Event.ofJson? v = .ok e) ↔ v.isTracked) ∧
      (∀ e, Event.ofJson? v = .ok e → e.json = v.withLists) ∧
      ((∃ e, UntrackedEvent.ofJson? v = .ok e) ↔ v.isUntracked) ∧
      (∀ e, UntrackedEvent.ofJson? v = .ok e → e.json = v.withLists) ∧
      ((∃ c, Context.ofJson? v = .ok c) ↔ v.isContext) ∧
      ∀ c, Context.ofJson? v = .ok c → c.json = v := by
  refine ⟨⟨?_, Event.ofJson?_ok value⟩, fun e => Event.json_of_read value,
    ⟨?_, UntrackedEvent.ofJson?_ok value⟩, fun e => UntrackedEvent.json_of_read value,
    ⟨?_, Context.ofJson?_ok value⟩, fun c => Context.json_of_read value⟩
  · rintro ⟨e, run⟩
    exact Event.isTracked_of_read value run
  · rintro ⟨e, run⟩
    exact UntrackedEvent.isUntracked_of_read value run
  · rintro ⟨c, run⟩
    exact Context.isContext_of_read value run

def sampleEvent (time : Int) : Json :=
  .obj [("__k", .int 1), ("_type", .str "E"), ("id", .str "e"), ("instance_id", .str "i"),
    ("location_stack", .arr [.obj [("__k", .null), ("_type", .str "T"), ("id", .str "c")]]),
    ("time", .int time)]

theorem isValue_sampleEvent (time : Int) (least : minInt ≤ time) (most : time ≤ maxInt) :
    IsValue (sampleEvent time) := by
  have context : IsValue (.obj [("__k", .null), ("_type", .str "T"), ("id", .str "c")]) :=
    .obj (by unfold Entries.Sorted; decide) (by simp [IsValue.null, IsValue.str])
  have contexts : IsValue (.arr [.obj [("__k", .null), ("_type", .str "T"), ("id", .str "c")]]) :=
    .arr (by simpa using context)
  have one : IsValue (.int 1) := .int (by decide) (by decide)
  have stamp : IsValue (.int time) := .int least most
  have keys : ["__k", "_type", "id", "instance_id", "location_stack", "time"].Pairwise (· < ·) := by
    decide
  refine .obj ?_ (by simp [contexts, one, stamp, IsValue.str])
  exact (List.pairwise_map (f := Prod.fst)).1 keys

theorem read_exactly_sample :
    (∃ e, Event.ofJson? (sampleEvent 5) = .ok e ∧ e.json.find? "__k" = some (.int 1) ∧
      e.json.find? "global_contexts" = some (.arr [])) ∧
    (¬ ∃ e, Event.ofJson? (sampleEvent (Nat.pow 2 63)) = .ok e) ∧
    ∃ e, UntrackedEvent.ofJson? (sampleEvent (Nat.pow 2 63)) = .ok e := by
  have inside := read_exactly (isValue_sampleEvent 5 (by decide) (by decide))
  have outside := read_exactly (isValue_sampleEvent (Nat.pow 2 63) (by decide) (by decide))
  obtain ⟨e, read⟩ := inside.1.2 (by decide)
  refine ⟨⟨e, read, ?_, ?_⟩, ?_, outside.2.2.1.2 (by decide)⟩
  · rw [inside.2.1 e read]
    rfl
  · rw [inside.2.1 e read]
    rfl
  · rw [outside.1]
    decide

end Json

end EventTracking
