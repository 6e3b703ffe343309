import EventTracking.Proofs.Context.Equality
import EventTracking.Proofs.Json.Sound
import Mathlib.Logic.Relation

set_option autoImplicit false

namespace EventTracking.Json

section Same

mutual

theorem same_refl (v : Json) : v.same v = true := by
  cases v with
  | null => rfl
  | bool | int | str => simp [same]
  | float x => exact x.same_refl
  | arr items => exact sameItems_refl items
  | obj entries => exact sameEntries_refl entries

theorem sameItems_refl (items : List Json) : sameItems items items = true := by
  cases items with
  | nil => rfl
  | cons v items => simp [sameItems, same_refl v, sameItems_refl items]

theorem sameEntries_refl (entries : List (String × Json)) :
    sameEntries entries entries = true := by
  match entries with
  | [] => rfl
  | (key, v) :: entries => simp [sameEntries, same_refl v, sameEntries_refl entries]

end

mutual

theorem same_symm {v w : Json} (h : v.same w = true) : w.same v = true := by
  cases v <;> cases w <;> simp only [same, Bool.false_eq_true] at h ⊢
  case bool | int | str =>
    rw [beq_iff_eq] at h ⊢
    exact h.symm
  case float => exact Binary64.same_symm h
  case arr => exact sameItems_symm h
  case obj => exact sameEntries_symm h

theorem sameItems_symm {a b : List Json} (h : sameItems a b = true) : sameItems b a = true := by
  match a, b with
  | [], [] => rfl
  | [], _ :: _ | _ :: _, [] => simp [sameItems] at h
  | v :: a, w :: b =>
    simp only [sameItems, Bool.and_eq_true] at h ⊢
    exact ⟨same_symm h.1, sameItems_symm h.2⟩

theorem sameEntries_symm {a b : List (String × Json)} (h : sameEntries a b = true) :
    sameEntries b a = true := by
  match a, b with
  | [], [] => rfl
  | [], _ :: _ | _ :: _, [] => simp [sameEntries] at h
  | (k, v) :: a, (l, w) :: b =>
    simp only [sameEntries, Bool.and_eq_true, beq_iff_eq] at h ⊢
    exact ⟨⟨h.1.1.symm, same_symm h.1.2⟩, sameEntries_symm h.2⟩

end

mutual

theorem same_trans {u v w : Json} (h : u.same v = true) (k : v.same w = true) :
    u.same w = true := by
  cases u <;> cases v <;> simp only [same, Bool.false_eq_true] at h
  all_goals cases w <;> simp only [same, Bool.false_eq_true] at k ⊢
  case bool | int | str => simp_all
  case float => exact Binary64.same_trans h k
  case arr => exact sameItems_trans h k
  case obj => exact sameEntries_trans h k

theorem sameItems_trans {a b c : List Json} (h : sameItems a b = true)
    (k : sameItems b c = true) : sameItems a c = true := by
  match a, b, c with
  | [], [], [] => rfl
  | [], _ :: _, _ | _ :: _, [], _ => simp [sameItems] at h
  | _, [], _ :: _ | _, _ :: _, [] => simp [sameItems] at k
  | u :: a, v :: b, w :: c =>
    simp only [sameItems, Bool.and_eq_true] at h k ⊢
    exact ⟨same_trans h.1 k.1, sameItems_trans h.2 k.2⟩

theorem sameEntries_trans {a b c : List (String × Json)} (h : sameEntries a b = true)
    (k : sameEntries b c = true) : sameEntries a c = true := by
  match a, b, c with
  | [], [], [] => rfl
  | [], _ :: _, _ | _ :: _, [], _ => simp [sameEntries] at h
  | _, [], _ :: _ | _, _ :: _, [] => simp [sameEntries] at k
  | (i, u) :: a, (j, v) :: b, (l, w) :: c =>
    simp only [sameEntries, Bool.and_eq_true, beq_iff_eq] at h k ⊢
    exact ⟨⟨h.1.1.trans k.1.1, same_trans h.1.2 k.1.2⟩, sameEntries_trans h.2 k.2⟩

end

end Same

namespace Alike

variable {u v w : Option Json}

theorem refl (v : Option Json) : Alike v v := by
  cases v with
  | none => exact .none
  | some v => exact .some (same_refl v)

theorem symm (h : Alike v w) : Alike w v := by
  cases h with
  | none => exact .none
  | some same => exact .some (same_symm same)

theorem trans (h : Alike u v) (k : Alike v w) : Alike u w := by
  cases h with
  | none =>
    cases k
    exact .none
  | some same =>
    cases k with
    | some same' => exact .some (same_trans same same')

end Alike

section Public

variable {a b c : Json} {entries entries' : List (String × Json)} {key : String}

def IsContextValue (v : Json) : Prop :=
  ∃ entries type id, v = obj entries ∧ Entries.find? "_type" entries = some (str type) ∧
    Entries.find? "id" entries = some (str id)

def SamePublic (a b : Json) : Prop :=
  ∀ key, ¬ isReserved key → Alike (a.find? key) (b.find? key)

-- Putting a value under a reserved key of an object, or leaving a reserved key out.
inductive ReservedEdit : List (String × Json) → List (String × Json) → Prop
  | insert (entries : List (String × Json)) {key : String} (value : Json) :
      isReserved key → ReservedEdit entries (Entries.insert key value entries)
  | erase (entries : List (String × Json)) {key : String} :
      isReserved key → ReservedEdit entries (Entries.erase key entries)

theorem any_isStr_iff {v : Option Json} : v.any isStr ↔ ∃ s, v = some (str s) := by
  cases v with
  | none => simp
  | some v => cases v <;> simp [isStr, str?]

theorem isContext_iff (v : Json) : v.isContext ↔ v.IsContextValue := by
  cases v with
  | obj entries => simp [isContext, IsContextValue, any_isStr_iff]
  | null | bool | int | float | str | arr => simp [isContext, IsContextValue]

def Ordered (v : Json) : Prop := ∀ entries, v = obj entries → Entries.Sorted entries

theorem IsValue.isOrdered (value : IsValue a) : a.Ordered := by
  rintro entries rfl
  exact value.ordered entries (by simp [parts])

theorem isContextEqual_iff (orderedA : a.Ordered) (orderedB : b.Ordered) :
    isContextEqual a b ↔ a.IsContextValue ∧ b.IsContextValue ∧ SamePublic a b := by
  rw [← isContext_iff, ← isContext_iff, ← and_assoc]
  simp only [isContextEqual, Bool.and_eq_true]
  refine and_congr_right fun contexts => ?_
  obtain ⟨entriesA, _, _, rfl, _⟩ := (isContext_iff a).1 contexts.1
  obtain ⟨entriesB, _, _, rfl, _⟩ := (isContext_iff b).1 contexts.2
  have agree := publicEntries_iff (orderedA entriesA rfl) (orderedB entriesB rfl)
  simpa [SamePublic, find?] using agree

namespace ReservedEdit

theorem find?_eq (edit : ReservedEdit entries entries') (shown : ¬ isReserved key) :
    Entries.find? key entries' = Entries.find? key entries := by
  cases edit with
  | @insert reserved value hidden =>
    have other : key ≠ reserved := fun same => shown (same ▸ hidden)
    rw [Entries.find?_insert, if_neg other]
  | @erase reserved hidden =>
    have other : key ≠ reserved := fun same => shown (same ▸ hidden)
    rw [Entries.find?_erase, if_neg other]

theorem sorted (edit : ReservedEdit entries entries') (sorted : Entries.Sorted entries) :
    Entries.Sorted entries' := by
  cases edit with
  | insert => exact Entries.sorted_insert sorted
  | erase => exact Entries.sorted_erase sorted

theorem all_find?_eq (edits : Relation.ReflTransGen ReservedEdit entries entries')
    (shown : ¬ isReserved key) : Entries.find? key entries' = Entries.find? key entries := by
  induction edits with
  | refl => rfl
  | tail _ edit ih => exact (edit.find?_eq shown).trans ih

theorem all_ordered (edits : Relation.ReflTransGen ReservedEdit entries entries')
    (ordered : (obj entries).Ordered) : (obj entries').Ordered := by
  rintro _ ⟨⟩
  induction edits with
  | refl => exact ordered entries rfl
  | tail _ edit ih => exact edit.sorted ih

theorem all_isContextValue_iff (edits : Relation.ReflTransGen ReservedEdit entries entries') :
    (obj entries').IsContextValue ↔ (obj entries).IsContextValue := by
  have type : Entries.find? "_type" entries' = Entries.find? "_type" entries :=
    all_find?_eq edits (by decide)
  have id : Entries.find? "id" entries' = Entries.find? "id" entries :=
    all_find?_eq edits (by decide)
  simp [IsContextValue, type, id]

theorem all_samePublic_iff (edits : Relation.ReflTransGen ReservedEdit entries entries')
    (b : Json) : SamePublic (obj entries') b ↔ SamePublic (obj entries) b := by
  refine forall₂_congr fun key shown => ?_
  simp only [find?, all_find?_eq edits shown]

end ReservedEdit

theorem SamePublic.refl (a : Json) : SamePublic a a := fun _ _ => .refl _

theorem SamePublic.symm (h : SamePublic a b) : SamePublic b a := fun key shown =>
  (h key shown).symm

theorem SamePublic.trans (h : SamePublic a b) (k : SamePublic b c) : SamePublic a c :=
  fun key shown => (h key shown).trans (k key shown)

theorem isContextEqual_comm (orderedA : a.Ordered) (orderedB : b.Ordered) :
    isContextEqual a b = isContextEqual b a := by
  rw [Bool.eq_iff_iff, isContextEqual_iff orderedA orderedB, isContextEqual_iff orderedB orderedA]
  exact ⟨fun ⟨ca, cb, same⟩ => ⟨cb, ca, same.symm⟩, fun ⟨cb, ca, same⟩ => ⟨ca, cb, same.symm⟩⟩

theorem isContextEqual_edited (orderedA : (obj entries).Ordered) (orderedB : b.Ordered)
    (edits : Relation.ReflTransGen ReservedEdit entries entries') :
    isContextEqual (obj entries') b = isContextEqual (obj entries) b := by
  rw [Bool.eq_iff_iff, isContextEqual_iff (ReservedEdit.all_ordered edits orderedA) orderedB,
    isContextEqual_iff orderedA orderedB, ReservedEdit.all_isContextValue_iff edits,
    ReservedEdit.all_samePublic_iff edits]

/-- Two values are equal as contexts exactly if both are contexts and have the same public content.
Contexts are equal to themselves, the order of the two does not matter, and equality passes on; what
is done to reserved keys of one of them changes nothing. -/
theorem isContextEqual_exactly (valueA : IsValue a) (valueB : IsValue b) :
    (isContextEqual a b ↔ a.IsContextValue ∧ b.IsContextValue ∧ SamePublic a b) ∧
      (a.IsContextValue → isContextEqual a a) ∧
      isContextEqual a b = isContextEqual b a ∧
      (∀ c, IsValue c → isContextEqual a b → isContextEqual b c → isContextEqual a c) ∧
      ∀ entries entries', a = obj entries → Relation.ReflTransGen ReservedEdit entries entries' →
        isContextEqual (obj entries') b = isContextEqual a b ∧
          isContextEqual b (obj entries') = isContextEqual b a := by
  have orderedA := valueA.isOrdered
  have orderedB := valueB.isOrdered
  refine ⟨isContextEqual_iff orderedA orderedB, fun context => ?_,
    isContextEqual_comm orderedA orderedB, fun c valueC ab bc => ?_, ?_⟩
  · exact (isContextEqual_iff orderedA orderedA).2 ⟨context, context, .refl a⟩
  · have orderedC := valueC.isOrdered
    obtain ⟨contextA, -, sameAB⟩ := (isContextEqual_iff orderedA orderedB).1 ab
    obtain ⟨-, contextC, sameBC⟩ := (isContextEqual_iff orderedB orderedC).1 bc
    exact (isContextEqual_iff orderedA orderedC).2 ⟨contextA, contextC, sameAB.trans sameBC⟩
  · rintro entries entries' rfl edits
    have left := isContextEqual_edited orderedA orderedB edits
    refine ⟨left, ?_⟩
    rw [isContextEqual_comm orderedB (ReservedEdit.all_ordered edits orderedA), left,
      isContextEqual_comm orderedA orderedB]

def sampleEntries : List (String × Json) :=
  [("__k", .int 1), ("_type", .str "LinkContext"), ("href", .str "/"), ("id", .str "home")]

theorem isContextEqual_exactly_sample :
    isContextEqual (obj (Entries.erase "__k" sampleEntries)) (obj sampleEntries) := by
  have value : IsValue (obj sampleEntries) := by
    refine .obj (by unfold Entries.Sorted; decide) fun e mem => ?_
    simp only [sampleEntries, List.mem_cons, List.not_mem_nil, or_false] at mem
    rcases mem with rfl | rfl | rfl | rfl
    · exact .int (by decide) (by decide)
    all_goals exact .str _
  obtain ⟨-, refl, -, -, edited⟩ := isContextEqual_exactly value value
  have shape : (obj sampleEntries).IsContextValue := ⟨_, "LinkContext", "home", rfl, by rfl, by rfl⟩
  rw [(edited _ _ rfl (.single (.erase _ (by decide)))).1]
  exact refl shape

end Public

end EventTracking.Json
