import EventTracking.Proofs.Context.Equality

set_option autoImplicit false

namespace EventTracking

open Json (IsValue Source ReadError)

namespace Entries

variable {α : Type} {a b : List (String × α)}

theorem mem_iff_find? (sorted : Sorted a) {e : String × α} :
    e ∈ a ↔ find? e.1 a = some e.2 :=
  ⟨find?_of_mem sorted, mem_of_find?⟩

theorem nodup_of_sorted (sorted : Sorted a) : a.Nodup := by
  apply List.Pairwise.imp _ sorted
  intro d e less same
  exact String.lt_irrefl e.1 (same ▸ less)

theorem ext_of_find? (sortedA : Sorted a) (sortedB : Sorted b)
    (same : ∀ key, find? key a = find? key b) : a = b := by
  have perm : a.Perm b := by
    rw [List.perm_ext_iff_of_nodup (nodup_of_sorted sortedA) (nodup_of_sorted sortedB)]
    intro e
    rw [mem_iff_find? sortedA, mem_iff_find? sortedB, same]
  exact perm.eq_of_pairwise
    (fun _ _ _ _ less more => absurd more (String.lt_asymm less)) sortedA sortedB

end Entries

theorem Fields.find?_ofList_reverse {α : Type} (entries : List (String × α)) (key : String) :
    (Fields.ofList entries.reverse).find? key = Entries.find? key entries := by
  have last := Entries.find?_ofList key entries.reverse
  rwa [List.reverse_reverse] at last

section Taking

variable {δ : Type} {take : δ → Option String × Source → Except ReadError δ}
  {P : δ → List (String × Json) → Prop} {entries seen : List (String × Json)} {d d' : δ}

theorem foldlM_keeps
    (keeps : ∀ {d d' seen key v}, (key, v) ∈ entries → P d seen →
      take d (some key, Source.ofJson v) = .ok d' → P d' ((key, v) :: seen))
    (start : P d seen) (run : (Source.ofEntries entries).foldlM take d = .ok d') :
    P d' (entries.reverse ++ seen) := by
  induction entries generalizing d seen with
  | nil =>
    cases run
    exact start
  | cons e entries ih =>
    rw [Source.ofEntries, List.foldlM_cons, bind_eq_ok] at run
    obtain ⟨next, first, run⟩ := run
    have rest := ih (fun mem => keeps (List.mem_cons_of_mem e mem))
      (keeps List.mem_cons_self start first) run
    simpa using rest

theorem foldlM_ok
    (keeps : ∀ {d d' seen key v}, (key, v) ∈ entries → P d seen →
      take d (some key, Source.ofJson v) = .ok d' → P d' ((key, v) :: seen))
    (goesOn : ∀ {d seen key v}, (key, v) ∈ entries → P d seen →
      Entries.find? key seen = none → ∃ d', take d (some key, Source.ofJson v) = .ok d')
    (sorted : Entries.Sorted entries) (new : ∀ e ∈ entries, Entries.find? e.1 seen = none)
    (start : P d seen) : ∃ d', (Source.ofEntries entries).foldlM take d = .ok d' := by
  induction entries generalizing d seen with
  | nil => exact ⟨d, rfl⟩
  | cons e entries ih =>
    obtain ⟨above, behind⟩ := List.pairwise_cons.1 sorted
    obtain ⟨next, first⟩ := goesOn List.mem_cons_self start (new e List.mem_cons_self)
    have later (f : String × Json) (hf : f ∈ entries) : Entries.find? f.1 (e :: seen) = none := by
      have other : f.1 ≠ e.1 := fun same => String.lt_irrefl _ (same ▸ above f hf)
      rw [Entries.find?_cons, if_neg other]
      exact new f (List.mem_cons_of_mem e hf)
    obtain ⟨d', run⟩ := ih (fun mem => keeps (List.mem_cons_of_mem e mem))
      (fun mem => goesOn (List.mem_cons_of_mem e mem)) behind later
      (keeps List.mem_cons_self start first)
    refine ⟨d', ?_⟩
    rw [Source.ofEntries, List.foldlM_cons, bind_eq_ok]
    exact ⟨next, first, run⟩

end Taking

section Fields

variable {v : Json} {α : Type} {read : Source → Except ReadError α}

theorem eq_str_of_string {s : String} (run : (Source.ofJson v).string = .ok s) : v = .str s := by
  cases v <;> cases run
  rfl

theorem string_ok (isStr : v.isStr) : ∃ s, (Source.ofJson v).string = .ok s := by
  cases v with
  | str s => exact ⟨s, rfl⟩
  | null | bool | int | float | arr | obj => cases isStr

theorem map_of_mapM {write : α → Json} {items : List Json} {l : List α}
    (back : ∀ w ∈ items, ∀ a, read (Source.ofJson w) = .ok a → write a = w)
    (run : (Source.ofItems items).mapM read = .ok l) : l.map write = items := by
  induction items generalizing l with
  | nil =>
    cases run
    rfl
  | cons w items ih =>
    rw [Source.ofItems, List.mapM_cons, bind_eq_ok] at run
    obtain ⟨a, first, run⟩ := run
    obtain ⟨rest, others, run⟩ := bind_eq_ok.1 run
    cases run
    rw [List.map_cons, back w (by simp) a first, ih (fun x hx => back x (by simp [hx])) others]

theorem eq_arr_of_list {write : α → Json} {l : List α}
    (back : ∀ w, IsValue w → ∀ a, read (Source.ofJson w) = .ok a → write a = w)
    (value : IsValue v) (run : (Source.ofJson v).list read = .ok l) : v = .arr (l.map write) := by
  cases v with
  | arr items =>
    obtain ⟨l', found, run⟩ := bind_eq_ok.1 run
    cases run
    rw [map_of_mapM (fun w hw => back w (value.item hw)) found]
  | null | bool | int | float | str | obj => cases run

theorem list_ok {items : List Json} (each : ∀ w ∈ items, ∃ a, read (Source.ofJson w) = .ok a) :
    ∃ l, (Source.ofJson (.arr items)).list read = .ok l := by
  have all : ∃ l, (Source.ofItems items).mapM read = .ok l := by
    induction items with
    | nil => exact ⟨[], rfl⟩
    | cons w items ih =>
      obtain ⟨a, first⟩ := each w (by simp)
      obtain ⟨l, rest⟩ := ih fun w hw => each w (by simp [hw])
      refine ⟨a :: l, ?_⟩
      rw [Source.ofItems, List.mapM_cons, first, rest]
      rfl
  obtain ⟨l, found⟩ := all
  exact ⟨l, bind_eq_ok.2 ⟨l, found, rfl⟩⟩

theorem some_of_any {β : Type} {o : Option β} {write : β → Json} {found : Option Json}
    {p : Json → Bool} (same : o.map write = found) (there : found.any p) : ∃ b, o = some b := by
  cases o with
  | none =>
    rw [← same] at there
    cases there
  | some b => exact ⟨b, rfl⟩

theorem once_eq_ok {β δ : Type} {name : String} {o : Option β} {x : Except ReadError α}
    {set : α → δ} {d : δ} :
    (do once name o; return set (← x)) = .ok d ↔ o = none ∧ ∃ a, x = .ok a ∧ set a = d := by
  cases o with
  | none => cases x <;> simp [once, bind, Except.bind, pure, Except.pure]
  | some b => simp [once, bind, Except.bind]

theorem json_eq_ok {δ : Type} (value : IsValue v) {set : Json → δ} {d : δ} :
    ((do return set (← (Source.ofJson v).json)) : Except ReadError δ) = .ok d ↔ set v = d := by
  rw [Source.json_ofJson v fun entries => value.ordered entries]
  exact iff_of_eq (Except.ok.injEq (set v) d)

end Fields

namespace Context

structure Draft.Holds (d : Draft) (seen : List (String × Json)) : Prop where
  type : d.type.map Json.str = Entries.find? "_type" seen
  id : d.id.map Json.str = Entries.find? "id" seen
  others : ∀ key, Entries.find? key d.others =
    if key ∈ declaredKeys then none else Entries.find? key seen

variable {d d' : Draft} {seen : List (String × Json)} {key : String} {v : Json} {c : Context}

theorem Draft.holds_nil : Draft.Holds {} [] := by
  constructor <;> simp [Entries.find?_nil]

theorem Draft.Holds.entry (h : d.Holds seen) (value : IsValue v)
    (run : d.entry (some key, Source.ofJson v) = .ok d') : d'.Holds ((key, v) :: seen) := by
  unfold Draft.entry at run
  dsimp only at run
  split at run
  · next isType =>
    obtain ⟨-, s, string, rfl⟩ := once_eq_ok.1 run
    obtain rfl := eq_str_of_string string
    constructor
    · simp [Entries.find?_cons, isType]
    · simp [Entries.find?_cons, isType, h.id]
    · intro k
      simp only [Entries.find?_cons, h.others, isType, declaredKeys]
      grind
  · next noType =>
    split at run
    · next isId =>
      obtain ⟨-, s, string, rfl⟩ := once_eq_ok.1 run
      obtain rfl := eq_str_of_string string
      constructor
      · simp [Entries.find?_cons, isId, h.type]
      · simp [Entries.find?_cons, isId]
      · intro k
        simp only [Entries.find?_cons, h.others, isId, declaredKeys]
        grind
    · next noId =>
      obtain rfl := (json_eq_ok value).1 run
      constructor
      · simp [Entries.find?_cons, Ne.symm noType, h.type]
      · simp [Entries.find?_cons, Ne.symm noId, h.id]
      · intro k
        simp only [Entries.find?_cons, h.others, declaredKeys]
        grind

theorem Draft.Holds.goesOn (h : d.Holds seen) (value : IsValue v)
    (new : Entries.find? key seen = none) (type : key = "_type" → v.isStr)
    (id : key = "id" → v.isStr) : ∃ d', d.entry (some key, Source.ofJson v) = .ok d' := by
  unfold Draft.entry
  dsimp only
  split
  · next isType =>
    obtain ⟨s, string⟩ := string_ok (type isType)
    have none : d.type = none := by simpa [← isType, new] using h.type
    exact ⟨_, once_eq_ok.2 ⟨none, s, string, rfl⟩⟩
  · split
    · next isId =>
      obtain ⟨s, string⟩ := string_ok (id isId)
      have none : d.id = none := by simpa [← isId, new] using h.id
      exact ⟨_, once_eq_ok.2 ⟨none, s, string, rfl⟩⟩
    · exact ⟨_, (json_eq_ok value).2 rfl⟩

section Filling

variable {entries : List (String × Json)}

theorem Draft.keeps (value : IsValue (.obj entries)) {w : Json} (mem : (key, w) ∈ entries)
    (h : d.Holds seen) (run : d.entry (some key, Source.ofJson w) = .ok d') :
    d'.Holds ((key, w) :: seen) :=
  h.entry (value.entry mem) run

theorem Draft.holds_filled (value : IsValue (.obj entries))
    (filled : (Source.ofEntries entries).foldlM Draft.entry {} = .ok d) : d.Holds entries := by
  have sorted : Entries.Sorted entries := value.ordered entries (by simp [Json.parts])
  obtain ⟨type, id, others⟩ := foldlM_keeps (Draft.keeps value) holds_nil filled
  simp only [List.append_nil, Entries.find?_reverse sorted] at type id others
  exact ⟨type, id, others⟩

theorem Draft.filled_ok (value : IsValue (.obj entries))
    (isContext : (Json.obj entries).isContext) :
    ∃ d, (Source.ofEntries entries).foldlM Draft.entry {} = .ok d := by
  have sorted : Entries.Sorted entries := value.ordered entries (by simp [Json.parts])
  simp only [Json.isContext, Bool.and_eq_true] at isContext
  refine foldlM_ok (Draft.keeps value) (fun {d seen key w} mem h new => ?_) sorted
    (fun _ _ => rfl) Draft.holds_nil
  have found : Entries.find? key entries = some w := Entries.find?_of_mem sorted mem
  apply h.goesOn (value.entry mem) new
  · rintro rfl
    simpa [found] using isContext.1
  · rintro rfl
    simpa [found] using isContext.2

end Filling

theorem json_of_read (value : IsValue v) (run : ofJson? v = .ok c) : c.json = v := by
  cases v with
  | obj entries =>
    have sorted : Entries.Sorted entries := value.ordered entries (by simp [Json.parts])
    obtain ⟨d, filled, run⟩ := bind_eq_ok.1 run
    obtain ⟨_, _, run⟩ := bind_eq_ok.1 run
    obtain ⟨type, hasType, run⟩ := bind_eq_ok.1 run
    obtain ⟨id, hasId, run⟩ := bind_eq_ok.1 run
    cases run
    have h := Draft.holds_filled value filled
    have type_eq := required_eq_ok hasType ▸ h.type
    have id_eq := required_eq_ok hasId ▸ h.id
    refine congrArg Json.obj (Entries.ext_of_find? (Entries.sorted_ofList _) sorted fun key => ?_)
    refine (find?_json ⟨type, id, Fields.ofList d.others.reverse⟩ key).trans ?_
    rw [property?, Fields.find?_ofList_reverse, h.others]
    by_cases declared : key ∈ declaredKeys
    · rcases List.mem_pair.1 declared with rfl | rfl
      · rw [← type_eq]
        rfl
      · rw [← id_eq]
        rfl
    · have other := declared
      simp only [declaredKeys, List.mem_cons, List.not_mem_nil, or_false, not_or] at other
      simp [declared, Entries.find?_cons, Entries.find?_nil, other]
  | null | bool | int | float | str | arr => cases run

theorem isContext_of_read (value : IsValue v) (run : ofJson? v = .ok c) : v.isContext := by
  have sound : c.IsSound := isSound_read (Source.sound_ofJson value) run
  exact json_of_read value run ▸ sound.isContext_json

theorem ofJson?_ok (value : IsValue v) (isContext : v.isContext) : ∃ c, ofJson? v = .ok c := by
  cases v with
  | obj entries =>
    obtain ⟨d, filled⟩ := Draft.filled_ok value isContext
    have h := Draft.holds_filled value filled
    simp only [Json.isContext, Bool.and_eq_true] at isContext
    obtain ⟨s, hasType⟩ := some_of_any h.type isContext.1
    obtain ⟨t, hasId⟩ := some_of_any h.id isContext.2
    refine ⟨⟨s, t, Fields.ofList d.others.reverse⟩, bind_eq_ok.2 ⟨d, filled, ?_⟩⟩
    simp [Draft.finish, required, hasType, hasId, Source.checkEnding, bind, Except.bind, pure,
      Except.pure]
  | null | bool | int | float | str | arr => cases isContext

end Context

end EventTracking
