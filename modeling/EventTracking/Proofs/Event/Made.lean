import EventTracking.Proofs.Event.ReadBack

set_option autoImplicit false

namespace EventTracking

open Json (IsValue Source ReadError)
open Json.Source (Sound)

mutual

inductive Context.Made : Context → Prop
  | new (type id : String) : Context.Made (Context.new type id)
  | withProperty {c : Context} (made : Context.Made c) (key : String) {v : Json}
      (value : IsValue v) : Context.Made (c.withProperty key v)
  | read {text : String} {c : Context} (read : Context.ofText? text = .ok c) : Context.Made c
  | convert {v : Json} {c : Context} (value : IsValue v) (read : Context.ofJson? v = .ok c) :
      Context.Made c
  | location {cs : Contexts} {c : Context} (made : Contexts.Made cs) (mem : c ∈ cs.locations) :
      Context.Made c
  | global {cs : Contexts} {c : Context} (made : Contexts.Made cs) (mem : c ∈ cs.globals) :
      Context.Made c

inductive Contexts.Made : Contexts → Prop
  | lists {cs : Contexts} (locations : ∀ c ∈ cs.locations, Context.Made c)
      (globals : ∀ c ∈ cs.globals, Context.Made c) : Contexts.Made cs
  | read {text : String} {cs : Contexts} (read : Contexts.ofText? text = .ok cs) :
      Contexts.Made cs
  | convert {v : Json} {cs : Contexts} (value : IsValue v) (read : Contexts.ofJson? v = .ok cs) :
      Contexts.Made cs
  | untracked {e : UntrackedEvent} (made : UntrackedEvent.Made e) : Contexts.Made e.contexts
  | tracked {e : Event} (made : Event.Made e) : Contexts.Made e.contexts

inductive UntrackedEvent.Made : UntrackedEvent → Prop
  | new (type : String) : UntrackedEvent.Made (.new type)
  | interactive (type : String) : UntrackedEvent.Made (.interactive type)
  | nonInteractive (type : String) : UntrackedEvent.Made (.nonInteractive type)
  | fromScopes (type : String) {own : Contexts} {scopes : List Contexts}
      (made : Contexts.Made own) (all : ∀ cs ∈ scopes, Contexts.Made cs) :
      UntrackedEvent.Made (.fromScopes type own scopes)
  | withLocation {e : UntrackedEvent} {c : Context} (made : UntrackedEvent.Made e)
      (context : Context.Made c) : UntrackedEvent.Made (e.withLocation c)
  | withGlobal {e : UntrackedEvent} {c : Context} (made : UntrackedEvent.Made e)
      (context : Context.Made c) : UntrackedEvent.Made (e.withGlobal c)
  | withContexts {e : UntrackedEvent} {cs : Contexts} (made : UntrackedEvent.Made e)
      (contexts : Contexts.Made cs) : UntrackedEvent.Made (e.withContexts cs)
  | withProperty {e : UntrackedEvent} (made : UntrackedEvent.Made e) (key : String) {v : Json}
      (value : IsValue v) : UntrackedEvent.Made (e.withProperty key v)
  | read {text : String} {e : UntrackedEvent} (read : UntrackedEvent.ofText? text = .ok e) :
      UntrackedEvent.Made e
  | convert {v : Json} {e : UntrackedEvent} (value : IsValue v)
      (read : UntrackedEvent.ofJson? v = .ok e) : UntrackedEvent.Made e

inductive Event.Made : Event → Prop
  | stamp {e : UntrackedEvent} (made : UntrackedEvent.Made e) (id : String) {time : Int}
      (inside : -Nat.pow 2 63 ≤ time ∧ time < Nat.pow 2 63) : Event.Made (.stamp e id time)
  | read {text : String} {e : Event} (read : Event.ofText? text = .ok e) : Event.Made e
  | convert {v : Json} {e : Event} (value : IsValue v) (read : Event.ofJson? v = .ok e) :
      Event.Made e

end

def AreSound (declared : List String) (properties : List (String × Json)) : Prop :=
  ∀ p ∈ properties, p.1 ∉ declared ∧ IsValue p.2

theorem AreSound.ofList {declared : List String} {properties : List (String × Json)}
    (h : AreSound declared properties) : AreSound declared (Entries.ofList properties) :=
  fun p hp => h p (Entries.mem_ofList hp)

theorem AreSound.insert {declared : List String} {properties : List (String × Json)}
    (h : AreSound declared properties) {key : String} (other : key ∉ declared) {v : Json}
    (value : IsValue v) : AreSound declared (Entries.insert key v properties) := by
  intro p hp
  rcases Entries.mem_insert hp with rfl | old
  · exact ⟨other, value⟩
  · exact h p old

theorem foldlM_induct {α β ε : Type} {f : β → α → Except ε β} {P : β → Prop} {l : List α}
    (step : ∀ b, ∀ a ∈ l, ∀ b', P b → f b a = .ok b' → P b') {b b' : β} (start : P b)
    (run : l.foldlM f b = .ok b') : P b' := by
  induction l generalizing b with
  | nil =>
    cases run
    exact start
  | cons a l ih =>
    rw [List.foldlM_cons, bind_eq_ok] at run
    obtain ⟨c, first, run⟩ := run
    exact ih (fun b x hx => step b x (by simp [hx])) (step b a (by simp) c start first) run

theorem mapM_forall {α β ε : Type} {f : α → Except ε β} {P : β → Prop} {l : List α}
    (each : ∀ a ∈ l, ∀ b, f a = .ok b → P b) {l' : List β} (run : l.mapM f = .ok l') :
    ∀ b ∈ l', P b := by
  induction l generalizing l' with
  | nil =>
    cases run
    simp
  | cons a l ih =>
    rw [List.mapM_cons, bind_eq_ok] at run
    obtain ⟨b, first, run⟩ := run
    obtain ⟨bs, others, run⟩ := bind_eq_ok.1 run
    cases run
    refine List.forall_mem_cons.2 ⟨each a (by simp) b first, ?_⟩
    exact ih (fun x hx => each x (by simp [hx])) others

theorem sound_item {items : List Source} (sound : Sound (Source.itemsScalars items)) {s : Source}
    (hs : s ∈ items) : Sound s.scalars := by
  induction items with
  | nil => cases hs
  | cons t items ih =>
    rcases List.mem_cons.1 hs with rfl | later
    · exact fun v hv => sound v (by simp [Source.itemsScalars, hv])
    · exact ih (fun v hv => sound v (by simp [Source.itemsScalars, hv])) later

theorem sound_entry {entries : List (Option String × Source)}
    (sound : Sound (Source.entriesScalars entries)) {p : Option String × Source}
    (hp : p ∈ entries) : Sound p.2.scalars := by
  induction entries with
  | nil => cases hp
  | cons q entries ih =>
    rcases List.mem_cons.1 hp with rfl | later
    · exact fun v hv => sound v (by simp [Source.entriesScalars, hv])
    · exact ih (fun v hv => sound v (by simp [Source.entriesScalars, hv])) later

theorem list_forall {α : Type} {read : Source → Except ReadError α} {P : α → Prop} {s : Source}
    (sound : Sound s.scalars) (each : ∀ t, Sound t.scalars → ∀ a, read t = .ok a → P a)
    {l : List α} (run : s.list read = .ok l) : ∀ a ∈ l, P a := by
  cases s with
  | array items ending =>
    obtain ⟨values, found, run⟩ := bind_eq_ok.1 run
    obtain ⟨_, _, run⟩ := bind_eq_ok.1 run
    cases run
    exact mapM_forall (fun t ht => each t (sound_item sound ht)) found
  | scalar | valueless | broken | object => cases run

namespace Context

theorem IsSound.of_areSound {type id : String} {properties : Fields Json}
    (h : AreSound declaredKeys properties.entries) : IsSound ⟨type, id, properties⟩ where
  values p hp := (h p hp).2
  noClash := List.find?_eq_none.2 fun p hp => by simpa using (h p hp).1

theorem IsSound.areSound {c : Context} (h : c.IsSound) : AreSound declaredKeys c.properties.entries :=
  fun p hp => ⟨not_declared h.noClash hp, h.values p hp⟩

theorem isSound_new (type id : String) : (new type id).IsSound :=
  .of_areSound (by simp [AreSound, EmptyCollection.emptyCollection])

theorem IsSound.withProperty {c : Context} (h : c.IsSound) (key : String) {v : Json}
    (value : IsValue v) : (c.withProperty key v).IsSound := by
  unfold Context.withProperty
  split
  · exact h
  · next other =>
    apply IsSound.of_areSound
    exact h.areSound.insert (by simpa using other) value

theorem areSound_entry {d d' : Draft} {p : Option String × Source} (sound : Sound p.2.scalars)
    (before : AreSound declaredKeys d.others) (read : d.entry p = .ok d') :
    AreSound declaredKeys d'.others := by
  obtain ⟨_ | key, s⟩ := p
  · cases read
  · unfold Draft.entry at read
    dsimp only at read
    split at read
    · obtain ⟨_, _, read⟩ := bind_eq_ok.1 read
      obtain ⟨_, _, read⟩ := bind_eq_ok.1 read
      cases read
      exact before
    · next noType =>
      split at read
      · obtain ⟨_, _, read⟩ := bind_eq_ok.1 read
        obtain ⟨_, _, read⟩ := bind_eq_ok.1 read
        cases read
        exact before
      · next noId =>
        obtain ⟨v, value, read⟩ := bind_eq_ok.1 read
        cases read
        refine List.forall_mem_cons.2 ⟨⟨?_, Source.isValue_json sound value⟩, before⟩
        simp [declaredKeys, noType, noId]

theorem isSound_read {s : Source} (sound : Sound s.scalars) {c : Context} (run : read s = .ok c) :
    c.IsSound := by
  cases s with
  | object entries ending =>
    obtain ⟨d, folded, run⟩ := bind_eq_ok.1 run
    obtain ⟨_, _, run⟩ := bind_eq_ok.1 run
    obtain ⟨type, _, run⟩ := bind_eq_ok.1 run
    obtain ⟨id, _, run⟩ := bind_eq_ok.1 run
    cases run
    have others : AreSound declaredKeys d.others :=
      foldlM_induct (P := fun d => AreSound declaredKeys d.others)
        (fun d p hp d' before read => areSound_entry (sound_entry sound hp) before read)
        (by simp [AreSound]) folded
    exact .of_areSound (AreSound.ofList fun p hp => others p (by simpa using hp))
  | scalar | valueless | broken | array => cases run

end Context

namespace Contexts

theorem IsSound.empty : IsSound {} := ⟨by simp, by simp⟩

theorem IsSound.append {c d : Contexts} (hc : c.IsSound) (hd : d.IsSound) : (c ++ d).IsSound := by
  constructor
  · intro x hx
    exact (List.mem_append.1 hx).elim (hc.locations x) (hd.locations x)
  · intro x hx
    exact (List.mem_append.1 hx).elim (hc.globals x) (hd.globals x)

theorem IsSound.withLocation {cs : Contexts} (h : cs.IsSound) {c : Context} (context : c.IsSound) :
    (cs.withLocation c).IsSound := by
  constructor
  · intro x hx
    rcases List.mem_append.1 hx with old | new
    · exact h.locations x old
    · cases List.mem_singleton.1 new
      exact context
  · exact h.globals

theorem IsSound.withGlobal {cs : Contexts} (h : cs.IsSound) {c : Context} (context : c.IsSound) :
    (cs.withGlobal c).IsSound := by
  constructor
  · exact h.locations
  · intro x hx
    rcases List.mem_append.1 hx with old | new
    · exact h.globals x old
    · cases List.mem_singleton.1 new
      exact context

theorem isSound_merge {own : Contexts} {scopes : List Contexts} (h : own.IsSound)
    (all : ∀ c ∈ scopes, c.IsSound) : (merge scopes own).IsSound := by
  constructor
  · intro x hx
    rcases List.mem_append.1 hx with outer | inner
    · obtain ⟨c, hc, inside⟩ := List.mem_flatMap.1 outer
      exact (all c hc).locations x inside
    · exact h.locations x inner
  · intro x hx
    rcases List.mem_append.1 hx with inner | outer
    · exact h.globals x inner
    · obtain ⟨c, hc, inside⟩ := List.mem_flatMap.1 outer
      exact (all c hc).globals x inside

theorem isSound_list {s : Source} (sound : Sound s.scalars) {l : List Context}
    (read : s.list Context.read = .ok l) : ∀ c ∈ l, c.IsSound :=
  list_forall sound (fun _ sound _ => Context.isSound_read sound) read

structure Draft.IsSound (d : Draft) : Prop where
  locations : ∀ l ∈ d.locations, ∀ c ∈ l, c.IsSound
  globals : ∀ l ∈ d.globals, ∀ c ∈ l, c.IsSound

theorem Draft.isSound_entry {d d' : Draft} {p : Option String × Source} (sound : Sound p.2.scalars)
    (before : d.IsSound) (read : d.entry p = .ok d') : d'.IsSound := by
  obtain ⟨_ | key, s⟩ := p
  · cases read
  · unfold Draft.entry at read
    dsimp only at read
    split at read
    · obtain ⟨_, _, read⟩ := bind_eq_ok.1 read
      obtain ⟨l, locations, read⟩ := bind_eq_ok.1 read
      cases read
      exact ⟨by simpa using isSound_list sound locations, before.globals⟩
    · split at read
      · obtain ⟨_, _, read⟩ := bind_eq_ok.1 read
        obtain ⟨l, globals, read⟩ := bind_eq_ok.1 read
        cases read
        exact ⟨before.locations, by simpa using isSound_list sound globals⟩
      · obtain ⟨_, _, read⟩ := bind_eq_ok.1 read
        cases read
        exact before

theorem isSound_getD {locations globals : Option (List Context)}
    (hl : ∀ l ∈ locations, ∀ c ∈ l, c.IsSound) (hg : ∀ l ∈ globals, ∀ c ∈ l, c.IsSound) :
    IsSound ⟨locations.getD [], globals.getD []⟩ := by
  constructor
  · cases locations with
    | none => simp
    | some l => exact hl l rfl
  · cases globals with
    | none => simp
    | some l => exact hg l rfl

theorem isSound_read {excess : Nat → ReadError} {s : Source} (sound : Sound s.scalars)
    {c : Contexts} (run : readWith excess s = .ok c) : c.IsSound := by
  unfold readWith at run
  split at run
  · obtain ⟨d, folded, run⟩ := bind_eq_ok.1 run
    obtain ⟨_, _, run⟩ := bind_eq_ok.1 run
    cases run
    have draft : d.IsSound := foldlM_induct
      (fun d p hp d' before read => Draft.isSound_entry (sound_entry sound hp) before read)
      ⟨by simp, by simp⟩ folded
    exact isSound_getD draft.locations draft.globals
  · obtain ⟨_, _, run⟩ := bind_eq_ok.1 run
    cases run
    exact .empty
  · obtain ⟨l, locations, run⟩ := bind_eq_ok.1 run
    obtain ⟨_, _, run⟩ := bind_eq_ok.1 run
    cases run
    exact ⟨isSound_list (sound_item sound (by simp)) locations, by simp⟩
  · obtain ⟨l, locations, run⟩ := bind_eq_ok.1 run
    obtain ⟨g, globals, run⟩ := bind_eq_ok.1 run
    obtain ⟨_, _, run⟩ := bind_eq_ok.1 run
    cases run
    exact ⟨isSound_list (sound_item sound (by simp)) locations,
      isSound_list (sound_item sound (by simp)) globals⟩
  · obtain ⟨_, _, run⟩ := bind_eq_ok.1 run
    obtain ⟨_, _, run⟩ := bind_eq_ok.1 run
    cases run
  · cases run

end Contexts

def UntrackedEvent.ownKeys : List String := ["_type", "location_stack", "global_contexts"]

theorem integer_bounds {s : Source} {n : Int} (read : s.integer = .ok n) :
    -Nat.pow 2 63 ≤ n ∧ n < Nat.pow 2 63 := by
  cases s with
  | scalar v =>
    cases v with
    | int m =>
      change (if _ then _ else _) = _ at read
      split at read
      · next inside =>
        cases read
        exact inside
      · cases read
    | null | bool | float | str | arr | obj => cases read
  | valueless | broken | array | object => cases read

structure EventDraft.IsSound (d : EventDraft) : Prop where
  locations : ∀ l ∈ d.locations, ∀ c ∈ l, c.IsSound
  globals : ∀ l ∈ d.globals, ∀ c ∈ l, c.IsSound
  time : ∀ t ∈ d.time, -Nat.pow 2 63 ≤ t ∧ t < Nat.pow 2 63
  others : AreSound UntrackedEvent.ownKeys d.others

theorem EventDraft.isSound_entry {identified : Bool} {d d' : EventDraft}
    {p : Option String × Source} (sound : Sound p.2.scalars) (before : d.IsSound)
    (read : d.entry identified p = .ok d') : d'.IsSound := by
  obtain ⟨_ | key, s⟩ := p
  · cases read
  · unfold EventDraft.entry at read
    dsimp only at read
    split at read
    · obtain ⟨_, _, read⟩ := bind_eq_ok.1 read
      obtain ⟨_, _, read⟩ := bind_eq_ok.1 read
      cases read
      exact { before with }
    · next noType =>
      split at read
      · obtain ⟨_, _, read⟩ := bind_eq_ok.1 read
        obtain ⟨l, locations, read⟩ := bind_eq_ok.1 read
        cases read
        exact { before with locations := by simpa using Contexts.isSound_list sound locations }
      · next noLocations =>
        split at read
        · obtain ⟨_, _, read⟩ := bind_eq_ok.1 read
          obtain ⟨l, globals, read⟩ := bind_eq_ok.1 read
          cases read
          exact { before with globals := by simpa using Contexts.isSound_list sound globals }
        · next noGlobals =>
          split at read
          · obtain ⟨_, _, read⟩ := bind_eq_ok.1 read
            obtain ⟨_, _, read⟩ := bind_eq_ok.1 read
            cases read
            exact { before with }
          · split at read
            · obtain ⟨_, _, read⟩ := bind_eq_ok.1 read
              obtain ⟨t, time, read⟩ := bind_eq_ok.1 read
              cases read
              exact { before with time := by simpa using integer_bounds time }
            · obtain ⟨v, value, read⟩ := bind_eq_ok.1 read
              cases read
              have own : key ∉ UntrackedEvent.ownKeys := by
                simp [UntrackedEvent.ownKeys, noType, noLocations, noGlobals]
              have other := Source.isValue_json sound value
              exact { before with others := List.forall_mem_cons.2 ⟨⟨own, other⟩, before.others⟩ }

theorem EventDraft.isSound_entries {identified : Bool} {d : EventDraft}
    {entries : List (Option String × Source)} (sound : Sound (Source.entriesScalars entries))
    (folded : entries.foldlM (EventDraft.entry identified) {} = .ok d) : d.IsSound :=
  foldlM_induct (fun _ _ hp _ before read => isSound_entry (sound_entry sound hp) before read)
    ⟨by simp, by simp, by simp, by simp [AreSound]⟩ folded

theorem EventDraft.IsSound.values {d : EventDraft} (h : d.IsSound) {p : String × Json}
    (hp : p ∈ (Fields.ofList d.others.reverse).entries) :
    p.1 ∉ UntrackedEvent.ownKeys ∧ IsValue p.2 :=
  AreSound.ofList (fun q hq => h.others q (by simpa using hq)) p hp

theorem required_eq_ok {α : Type} {name : String} {o : Option α} {a : α}
    (h : required name o = .ok a) : o = some a := by
  cases o with
  | none => cases h
  | some b =>
    cases h
    rfl

theorem Event.isSound_read {s : Source} (sound : Sound s.scalars) {e : Event}
    (run : read s = .ok e) : e.IsSound := by
  cases s with
  | object entries ending =>
    obtain ⟨d, folded, run⟩ := bind_eq_ok.1 run
    obtain ⟨_, _, run⟩ := bind_eq_ok.1 run
    obtain ⟨type, _, run⟩ := bind_eq_ok.1 run
    obtain ⟨id, _, run⟩ := bind_eq_ok.1 run
    obtain ⟨time, stamped, run⟩ := bind_eq_ok.1 run
    cases run
    have draft := EventDraft.isSound_entries sound folded
    exact
      { contexts := Contexts.isSound_getD draft.locations draft.globals
        values := fun p hp => (draft.values hp).2
        time := draft.time time (required_eq_ok stamped) }
  | scalar | valueless | broken | array => cases run

structure UntrackedEvent.IsSound (e : UntrackedEvent) : Prop where
  contexts : e.contexts.IsSound
  properties : AreSound UntrackedEvent.ownKeys e.properties.entries

namespace UntrackedEvent

theorem isSound_read {s : Source} (sound : Sound s.scalars) {e : UntrackedEvent}
    (run : read s = .ok e) : e.IsSound := by
  cases s with
  | object entries ending =>
    obtain ⟨d, folded, run⟩ := bind_eq_ok.1 run
    obtain ⟨_, _, run⟩ := bind_eq_ok.1 run
    obtain ⟨type, _, run⟩ := bind_eq_ok.1 run
    cases run
    have draft := EventDraft.isSound_entries sound folded
    exact ⟨Contexts.isSound_getD draft.locations draft.globals, fun p hp => draft.values hp⟩
  | scalar | valueless | broken | array => cases run

theorem IsSound.withProperty {e : UntrackedEvent} (h : e.IsSound) (key : String) {v : Json}
    (value : IsValue v) : (e.withProperty key v).IsSound := by
  unfold UntrackedEvent.withProperty
  split
  · exact h
  · next other =>
    refine ⟨h.contexts, h.properties.insert ?_ value⟩
    simp only [declaredKeys, ownKeys, List.contains_eq_mem, List.mem_cons, List.not_mem_nil,
      or_false, decide_eq_true_eq, not_or] at other ⊢
    exact ⟨other.1, other.2.2.2.1, other.2.2.2.2⟩

theorem isSound_new (type : String) : (new type).IsSound := by
  have plain : IsSound { type } := ⟨.empty, by simp [AreSound, EmptyCollection.emptyCollection]⟩
  unfold new
  split
  · exact plain.withProperty _ (.bool true)
  · exact plain

theorem isSound_nonInteractive (type : String) : (nonInteractive type).IsSound := by
  have erased : IsSound { new type with
      properties := (new type).properties.erase Names.interactiveMarker } :=
    ⟨(isSound_new type).contexts, fun p hp =>
      (isSound_new type).properties p (List.mem_of_mem_filter hp)⟩
  exact erased.withProperty _ (.bool true)

theorem IsSound.stamp {e : UntrackedEvent} (sound : e.IsSound) (id : String) {time : Int}
    (inside : -Nat.pow 2 63 ≤ time ∧ time < Nat.pow 2 63) : (Event.stamp e id time).IsSound :=
  ⟨sound.contexts, fun p hp => (sound.properties p hp).2, inside⟩

theorem isSound_fromScopes (type : String) {own : Contexts} {scopes : List Contexts}
    (h : own.IsSound) (all : ∀ c ∈ scopes, c.IsSound) : (fromScopes type own scopes).IsSound :=
  ⟨(isSound_new type).contexts.append (Contexts.isSound_merge h all), (isSound_new type).properties⟩

end UntrackedEvent

mutual

theorem Context.Made.isSound : {c : Context} → Context.Made c → c.IsSound
  | _, .new type id => Context.isSound_new type id
  | _, .withProperty made key value => made.isSound.withProperty key value
  | _, .read read =>
    Context.isSound_read (Source.sound_ofText _) (Json.readText_eq_ok.1 read).1
  | _, .convert value read => Context.isSound_read (Source.sound_ofJson value) read
  | _, .location made mem => made.isSound.locations _ mem
  | _, .global made mem => made.isSound.globals _ mem

theorem Contexts.Made.isSound : {cs : Contexts} → Contexts.Made cs → cs.IsSound
  | _, .lists locations globals =>
    ⟨fun c hc => (locations c hc).isSound, fun c hc => (globals c hc).isSound⟩
  | _, .read read => Contexts.isSound_read (Source.sound_ofText _) (Json.readText_eq_ok.1 read).1
  | _, .convert value read => Contexts.isSound_read (Source.sound_ofJson value) read
  | _, .untracked made => made.isSound.contexts
  | _, .tracked made => made.isSound.contexts

theorem UntrackedEvent.Made.isSound : {e : UntrackedEvent} → UntrackedEvent.Made e → e.IsSound
  | _, .new type => UntrackedEvent.isSound_new type
  | _, .interactive type => (UntrackedEvent.isSound_new type).withProperty _ (.bool true)
  | _, .nonInteractive type => UntrackedEvent.isSound_nonInteractive type
  | _, .fromScopes type own scopes =>
    UntrackedEvent.isSound_fromScopes type own.isSound fun cs hcs => (scopes cs hcs).isSound
  | _, .withLocation made context =>
    ⟨made.isSound.contexts.withLocation context.isSound, made.isSound.properties⟩
  | _, .withGlobal made context =>
    ⟨made.isSound.contexts.withGlobal context.isSound, made.isSound.properties⟩
  | _, .withContexts made contexts =>
    ⟨made.isSound.contexts.append contexts.isSound, made.isSound.properties⟩
  | _, .withProperty made key value => made.isSound.withProperty key value
  | _, .read read =>
    UntrackedEvent.isSound_read (Source.sound_ofText _) (Json.readText_eq_ok.1 read).1
  | _, .convert value read => UntrackedEvent.isSound_read (Source.sound_ofJson value) read

theorem Event.Made.isSound : {e : Event} → Event.Made e → e.IsSound
  | _, .stamp made id inside => made.isSound.stamp id inside
  | _, .read read => Event.isSound_read (Source.sound_ofText _) (Json.readText_eq_ok.1 read).1
  | _, .convert value read => Event.isSound_read (Source.sound_ofJson value) read

end

end EventTracking
