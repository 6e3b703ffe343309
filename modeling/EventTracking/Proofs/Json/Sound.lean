import EventTracking.Proofs.Json.Trees

set_option autoImplicit false

namespace EventTracking

namespace Entries

variable {α : Type}

theorem mem_ofList {entries : List (String × α)} {e : String × α} (h : e ∈ ofList entries) :
    e ∈ entries := by
  suffices all : ∀ acc : List (String × α),
      e ∈ entries.foldl (fun acc e => insert e.1 e.2 acc) acc → e ∈ acc ∨ e ∈ entries by
    simpa using all [] h
  clear h
  induction entries with
  | nil => simp
  | cons first rest ih =>
    intro acc h
    rcases ih _ h with inserted | later
    · rcases mem_insert inserted with rfl | old
      · exact .inr (by simp)
      · exact .inl old
    · exact .inr (by simp [later])

end Entries

namespace Json

theorem mem_itemsParts {v : Json} {items : List Json} :
    v ∈ itemsParts items ↔ ∃ w ∈ items, v ∈ w.parts := by
  induction items with
  | nil => simp [itemsParts]
  | cons w items ih => simp [itemsParts, ih]

theorem mem_entriesParts {v : Json} {entries : List (String × Json)} :
    v ∈ entriesParts entries ↔ ∃ e ∈ entries, v ∈ e.2.parts := by
  induction entries with
  | nil => simp [entriesParts]
  | cons e entries ih => simp [entriesParts, ih]

structure IsValue (v : Json) : Prop where
  bounded : ∀ n, int n ∈ v.parts → minInt ≤ n ∧ n ≤ maxInt
  ordered : ∀ entries, obj entries ∈ v.parts → Entries.Sorted entries

namespace IsValue

theorem null : IsValue .null := ⟨by simp [parts], by simp [parts]⟩

theorem bool (b : Bool) : IsValue (.bool b) := ⟨by simp [parts], by simp [parts]⟩

theorem str (s : String) : IsValue (.str s) := ⟨by simp [parts], by simp [parts]⟩

theorem float (x : Binary64) : IsValue (.float x) := ⟨by simp [parts], by simp [parts]⟩

theorem int {n : Int} (least : minInt ≤ n) (most : n ≤ maxInt) : IsValue (.int n) := by
  refine ⟨fun m hm => ?_, by simp [parts]⟩
  obtain rfl : m = n := by simpa [parts] using hm
  exact ⟨least, most⟩

theorem arr {items : List Json} (h : ∀ v ∈ items, IsValue v) : IsValue (.arr items) := by
  constructor
  · intro n hn
    obtain ⟨v, hv, inside⟩ := mem_itemsParts.1 (by simpa [parts] using hn)
    exact (h v hv).bounded n inside
  · intro entries he
    obtain ⟨v, hv, inside⟩ := mem_itemsParts.1 (by simpa [parts] using he)
    exact (h v hv).ordered entries inside

theorem obj {entries : List (String × Json)} (sorted : Entries.Sorted entries)
    (h : ∀ e ∈ entries, IsValue e.2) : IsValue (.obj entries) := by
  constructor
  · intro n hn
    obtain ⟨e, he, inside⟩ := mem_entriesParts.1 (by simpa [parts] using hn)
    exact (h e he).bounded n inside
  · intro inner hi
    rcases List.mem_cons.1 hi with same | within
    · cases same
      exact sorted
    · obtain ⟨e, he, inside⟩ := mem_entriesParts.1 within
      exact (h e he).ordered inner inside

theorem item {items : List Json} (h : IsValue (.arr items)) {v : Json} (hv : v ∈ items) :
    IsValue v := by
  have inside {w : Json} (hw : w ∈ v.parts) : w ∈ (Json.arr items).parts := by
    simpa [parts] using .inr (mem_itemsParts.2 ⟨v, hv, hw⟩)
  exact ⟨fun n hn => h.bounded n (inside hn), fun entries he => h.ordered entries (inside he)⟩

theorem entry {entries : List (String × Json)} (h : IsValue (.obj entries)) {e : String × Json}
    (he : e ∈ entries) : IsValue e.2 := by
  have inside {w : Json} (hw : w ∈ e.2.parts) : w ∈ (Json.obj entries).parts := by
    simpa [parts] using .inr (mem_entriesParts.2 ⟨e, he, hw⟩)
  exact ⟨fun n hn => h.bounded n (inside hn), fun inner hi => h.ordered inner (inside hi)⟩

end IsValue

namespace Numeral

theorem gather_le {n : Nat} (digits : List Nat) (fits : n ≤ maxSignificand) :
    (gather n digits).1 ≤ maxSignificand := by
  induction digits generalizing n with
  | nil => exact fits
  | cons d digits ih =>
    rw [gather]
    split
    · exact fits
    · next within => exact ih (Nat.not_lt.1 within)

theorem isValue {n : Numeral} {v : Json} (read : n.value? = some v) : IsValue v := by
  have most : (maxSignificand : Int) = maxInt := by decide
  have least : minInt = -((Nat.pow 2 63 : Nat) : Int) := by decide
  have zero : minInt ≤ 0 ∧ 0 ≤ maxInt := by decide
  have signed {o : Option Binary64} {f : Binary64 → Binary64}
      (h : o.map (fun x => Json.float (f x)) = some v) : IsValue v := by
    obtain ⟨x, _, rfl⟩ := Option.map_eq_some_iff.1 h
    exact .float _
  have fits : (gather 0 n.whole).1 ≤ maxSignificand := gather_le n.whole (Nat.zero_le _)
  unfold value? at read
  rcases gather 0 n.whole with ⟨significand, left⟩
  dsimp only at read fits
  split at read
  · split at read
    · cases read
      exact .int (by omega) (by omega)
    · split at read
      · exact signed read
      · next small =>
        cases read
        exact .int (by omega) (by omega)
  · exact signed read
  · exact signed read

end Numeral

namespace Source

mutual

def scalars : Source → List Json
  | scalar v => [v]
  | array items _ => itemsScalars items
  | object entries _ => entriesScalars entries
  | valueless => []
  | broken _ => []

def itemsScalars : List Source → List Json
  | [] => []
  | s :: rest => scalars s ++ itemsScalars rest

def entriesScalars : List (Option String × Source) → List Json
  | [] => []
  | (_, s) :: rest => scalars s ++ entriesScalars rest

end

def Sound (scalars : List Json) : Prop := ∀ v ∈ scalars, IsValue v

theorem Sound.append {a b : List Json} (ha : Sound a) (hb : Sound b) : Sound (a ++ b) :=
  fun v hv => (List.mem_append.1 hv).elim (ha v) (hb v)

theorem Sound.nil : Sound [] := by simp [Sound]

theorem Sound.one {v : Json} (h : IsValue v) : Sound [v] := by simpa [Sound] using h

theorem sound_ofString (r : Option String × Rest) : Sound (ofString r).1.scalars := by
  unfold ofString
  split
  · exact .nil
  · exact .one (.str _)
  · exact .nil

theorem sound_ofWord {v : Json} (h : IsValue v) (word cs : List Char) :
    Sound (ofWord v word cs).1.scalars := by
  induction word generalizing cs with
  | nil => exact .one h
  | cons w word ih =>
    cases cs with
    | nil => exact .nil
    | cons c cs =>
      rw [ofWord]
      split
      · exact ih cs
      · exact .nil

theorem sound_ofNumber (cs : List Char) : Sound (ofNumber cs).1.scalars := by
  unfold ofNumber
  split
  · exact .nil
  · split
    · next read => exact .one (Numeral.isValue read)
    · exact .nil

theorem sound_withinDepth {depth : Nat} {r : Source × Rest} (h : Sound r.1.scalars) :
    Sound (withinDepth depth r).1.scalars := by
  unfold withinDepth
  dsimp only
  split
  · exact h
  · split <;> exact .nil

theorem sound_scan (fuel : Nat) :
    (∀ depth cs, Sound (scan depth fuel cs).1.scalars) ∧
      (∀ depth cs, Sound (itemsScalars (scanItems depth fuel cs).1)) ∧
        ∀ depth cs, Sound (entriesScalars (scanEntries depth fuel cs).1) := by
  induction fuel with
  | zero => exact ⟨fun _ _ => .nil, fun _ _ => .nil, fun _ _ => .nil⟩
  | succ fuel ih =>
    obtain ⟨value, items, entries⟩ := ih
    refine ⟨fun depth cs => ?_, fun depth cs => ?_, fun depth cs => ?_⟩
    · rw [scan]
      split
      · exact .nil
      · exact sound_ofString _
      · apply sound_withinDepth
        split
        · exact .nil
        · exact .nil
        · exact items _ _
      · apply sound_withinDepth
        split
        · exact .nil
        · exact entries _ _
      · exact sound_ofWord .null _ _
      · exact sound_ofWord (.bool true) _ _
      · exact sound_ofWord (.bool false) _ _
      · split
        · exact sound_ofNumber _
        · exact .nil
    · have first := value depth cs
      rw [scanItems]
      generalize scan depth fuel cs = r at first ⊢
      rcases r with ⟨s, f | rest⟩
      · exact first.append .nil
      · dsimp only
        split
        · exact first.append (items _ _)
        · exact first.append .nil
        · exact first.append .nil
    · rw [scanEntries]
      split
      · rcases scanString {} _ with ⟨key, f | rest⟩
        · exact .nil
        · dsimp only
          split
          · next behind _ =>
            have first := value depth behind
            generalize scan depth fuel behind = r at first ⊢
            rcases r with ⟨s, f | rest⟩
            · exact first.append .nil
            · dsimp only
              split
              · exact first.append (entries _ _)
              · exact first.append .nil
              · exact first.append .nil
          · exact .nil
      · exact .nil

theorem sound_ofText (text : String) : Sound (ofText text).1.scalars := by
  unfold ofText
  have scanned := (sound_scan (2 * text.toList.length + 2)).1 0 text.toList
  dsimp only
  split <;> simp_all

mutual

theorem isValue_json {s : Source} {v : Json} (sound : Sound s.scalars) (read : json s = .ok v) :
    IsValue v := by
  match s with
  | .scalar w =>
    cases read
    exact sound v (by simp [scalars])
  | .valueless => cases read
  | .broken _ => cases read
  | .array items ending =>
    obtain ⟨values, inner, _, rfl⟩ := json_array.1 read
    exact .arr (isValue_jsonItems sound inner)
  | .object entries ending =>
    obtain ⟨values, inner, _, rfl⟩ := json_object.1 read
    refine .obj (Entries.sorted_ofList values) fun e he => ?_
    exact isValue_jsonEntries sound inner e (Entries.mem_ofList he)

theorem isValue_jsonItems {items : List Source} {values : List Json}
    (sound : Sound (itemsScalars items)) (read : jsonItems items = .ok values) :
    ∀ v ∈ values, IsValue v := by
  match items with
  | [] =>
    cases read
    simp
  | s :: items =>
    rw [jsonItems, bind_eq_ok] at read
    obtain ⟨v, first, read⟩ := read
    obtain ⟨rest, others, read⟩ := bind_eq_ok.1 read
    cases read
    refine List.forall_mem_cons.2 ⟨?_, ?_⟩
    · exact isValue_json (fun w hw => sound w (by simp [itemsScalars, hw])) first
    · exact isValue_jsonItems (fun w hw => sound w (by simp [itemsScalars, hw])) others

theorem isValue_jsonEntries {entries : List (Option String × Source)}
    {values : List (String × Json)} (sound : Sound (entriesScalars entries))
    (read : jsonEntries entries = .ok values) : ∀ e ∈ values, IsValue e.2 := by
  match entries with
  | [] =>
    cases read
    simp
  | (none, _) :: _ => cases read
  | (some key, s) :: entries =>
    rw [jsonEntries, bind_eq_ok] at read
    obtain ⟨v, first, read⟩ := read
    obtain ⟨rest, others, read⟩ := bind_eq_ok.1 read
    cases read
    refine List.forall_mem_cons.2 ⟨?_, ?_⟩
    · exact isValue_json (fun w hw => sound w (by simp [entriesScalars, hw])) first
    · exact isValue_jsonEntries (fun w hw => sound w (by simp [entriesScalars, hw])) others

end

mutual

theorem sound_ofJson {v : Json} (h : IsValue v) : Sound (ofJson v).scalars := by
  match v with
  | .null | .bool _ | .int _ | .float _ | .str _ => exact .one h
  | .arr items => exact sound_ofItems fun v hv => h.item hv
  | .obj entries => exact sound_ofEntries fun e he => h.entry he

theorem sound_ofItems {items : List Json} (h : ∀ v ∈ items, IsValue v) :
    Sound (itemsScalars (ofItems items)) := by
  match items with
  | [] => exact .nil
  | v :: items =>
    exact (sound_ofJson (h v (by simp))).append (sound_ofItems fun w hw => h w (by simp [hw]))

theorem sound_ofEntries {entries : List (String × Json)} (h : ∀ e ∈ entries, IsValue e.2) :
    Sound (entriesScalars (ofEntries entries)) := by
  match entries with
  | [] => exact .nil
  | (key, v) :: entries =>
    have first : IsValue v := h (key, v) (by simp)
    exact (sound_ofJson first).append (sound_ofEntries fun e he => h e (by simp [he]))

end

end Source

end Json

end EventTracking
