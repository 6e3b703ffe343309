import Mathlib.Data.List.Basic
import EventTracking.Taxonomy.Validation

set_option autoImplicit false

namespace EventTracking.Taxonomy

def occurrences (type : String) (contexts : List Context) : Nat :=
  (contexts.map Context.type).count type

def Marked (e : Event) : Prop := e.properties.find? Names.interactiveMarker = some (.bool true)

structure Conforms (e : Event) : Prop where
  application : occurrences Names.applicationContext e.contexts.globals = 1
  root : Marked e → occurrences Names.rootLocationContext e.contexts.locations = 1
  outermost : Marked e →
    e.contexts.locations.head?.map Context.type = some Names.rootLocationContext
  path : Marked e → occurrences Names.pathContext e.contexts.globals = 1

inductive Miscounted (n : Nat) : ViolationKind → Prop
  | missing (absent : n = 0) : Miscounted n .missing
  | duplicate (several : 2 ≤ n) : Miscounted n .duplicate

inductive Misplaced (locations : List Context) : ViolationKind → Prop
  | miscounted {kind : ViolationKind}
      (wrong : Miscounted (occurrences Names.rootLocationContext locations) kind) :
      Misplaced locations kind
  | wrongPosition (single : occurrences Names.rootLocationContext locations = 1)
      (inner : locations.head?.map Context.type ≠ some Names.rootLocationContext) :
      Misplaced locations .wrongPosition

-- The violations by an event: one rule holds for all events, two for those that are marked.
inductive Breaks (e : Event) : Violation → Prop
  | application {kind : ViolationKind}
      (wrong : Miscounted (occurrences Names.applicationContext e.contexts.globals) kind) :
      Breaks e ⟨kind, Names.applicationContext, .globals, e.type⟩
  | root {kind : ViolationKind} (marked : Marked e)
      (wrong : Misplaced e.contexts.locations kind) :
      Breaks e ⟨kind, Names.rootLocationContext, .locations, e.type⟩
  | path {kind : ViolationKind} (marked : Marked e)
      (wrong : Miscounted (occurrences Names.pathContext e.contexts.globals) kind) :
      Breaks e ⟨kind, Names.pathContext, .globals, e.type⟩

section Checks

theorem count_eq_occurrences (type : String) (contexts : List Context) :
    count type contexts = occurrences type contexts := by
  rw [occurrences, List.count, List.countP_map]
  rfl

theorem exactlyOne_eq_some {type : String} {contexts : List Context} {kind : ViolationKind} :
    exactlyOne type contexts = some kind ↔ Miscounted (occurrences type contexts) kind := by
  rw [exactlyOne, count_eq_occurrences]
  match occurrences type contexts with
  | 0 =>
    refine ⟨fun h => ?_, fun h => ?_⟩
    · obtain rfl := Option.some.inj h
      exact .missing rfl
    · cases h with
      | missing => rfl
      | duplicate several => omega
  | 1 =>
    refine ⟨nofun, fun h => ?_⟩
    cases h <;> omega
  | n + 2 =>
    refine ⟨fun h => ?_, fun h => ?_⟩
    · obtain rfl := Option.some.inj h
      exact .duplicate (by omega)
    · cases h with
      | missing absent => omega
      | duplicate => rfl

theorem exactlyOne_eq_none {type : String} {contexts : List Context} :
    exactlyOne type contexts = none ↔ occurrences type contexts = 1 := by
  rw [exactlyOne, count_eq_occurrences]
  match occurrences type contexts with
  | 0 | 1 => simp
  | n + 2 => simp

theorem head_any_eq_true {type : String} {contexts : List Context} :
    (contexts.head?.any fun c => c.type == type) = true ↔
      contexts.head?.map Context.type = some type := by
  cases contexts <;> simp

theorem rootFirst_eq_some {locations : List Context} {kind : ViolationKind} :
    rootFirst locations = some kind ↔ Misplaced locations kind := by
  unfold rootFirst
  split
  · next found miscounted =>
    have wrong := exactlyOne_eq_some.1 miscounted
    refine ⟨fun h => ?_, fun h => ?_⟩
    · obtain rfl := Option.some.inj h
      exact .miscounted wrong
    · cases h with
      | miscounted wrong => exact miscounted.symm.trans (exactlyOne_eq_some.2 wrong)
      | wrongPosition single => exact nomatch miscounted.symm.trans (exactlyOne_eq_none.2 single)
  · next counted =>
    have single := exactlyOne_eq_none.1 counted
    -- The position is looked at only where the count is right.
    have placed : Misplaced locations kind ↔ kind = .wrongPosition ∧
        locations.head?.map Context.type ≠ some Names.rootLocationContext := by
      refine ⟨fun h => ?_, ?_⟩
      · cases h with
        | miscounted wrong => exact nomatch counted.symm.trans (exactlyOne_eq_some.2 wrong)
        | wrongPosition _ inner => exact ⟨rfl, inner⟩
      · rintro ⟨rfl, inner⟩
        exact .wrongPosition single inner
    rw [placed, ne_eq, ← head_any_eq_true]
    split
    · next first => simp [first]
    · next inner => simp [inner, eq_comm]

theorem rootFirst_eq_none {locations : List Context} :
    rootFirst locations = none ↔ occurrences Names.rootLocationContext locations = 1 ∧
      locations.head?.map Context.type = some Names.rootLocationContext := by
  rw [← exactlyOne_eq_none, ← head_any_eq_true]
  unfold rootFirst
  split
  · next miscounted => simp [miscounted]
  · next counted => simp [counted]

theorem isInteractive_eq_true {e : Event} : e.isInteractive = true ↔ Marked e := by
  rw [Event.isInteractive, Fields.isSet, Marked]
  cases e.properties.find? Names.interactiveMarker with
  | none => simp
  | some value => cases value <;> simp [Json.bool?]

end Checks

def ruled (e : Event) (type : String) (scope : Scope) (kind : Option ViolationKind) :
    List Violation := (kind.map fun k => (⟨k, type, scope, e.type⟩ : Violation)).toList

def byRule (e : Event) : List (List Violation) :=
  [ruled e Names.applicationContext .globals
      (exactlyOne Names.applicationContext e.contexts.globals),
    if e.isInteractive then
      ruled e Names.rootLocationContext .locations (rootFirst e.contexts.locations) else [],
    if e.isInteractive then
      ruled e Names.pathContext .globals (exactlyOne Names.pathContext e.contexts.globals) else []]

theorem validate_eq (e : Event) : validate e = (byRule e).flatten := by
  unfold validate byRule ruled
  cases e.isInteractive <;> simp

variable {e : Event} {type : String} {scope : Scope} {kind : Option ViolationKind}

theorem ruled_eq_nil : ruled e type scope kind = [] ↔ kind = none := by
  cases kind <;> simp [ruled]

theorem mem_ruled {v : Violation} : v ∈ ruled e type scope kind ↔
    ∃ k, kind = some k ∧ v = ⟨k, type, scope, e.type⟩ := by
  cases kind <;> simp [ruled]

theorem sublist_ruled : ((ruled e type scope kind).map Violation.contextType).Sublist [type] := by
  cases kind <;> simp [ruled]

theorem mem_validate {v : Violation} : v ∈ validate e ↔ Breaks e v := by
  simp only [validate_eq, byRule, List.mem_flatten, List.mem_cons, List.not_mem_nil, or_false,
    exists_eq_or_imp, exists_eq_left, List.mem_ite_nil_right, mem_ruled, exactlyOne_eq_some,
    rootFirst_eq_some, isInteractive_eq_true]
  refine ⟨?_, fun h => ?_⟩
  · rintro (⟨k, wrong, rfl⟩ | ⟨marked, k, wrong, rfl⟩ | ⟨marked, k, wrong, rfl⟩)
    · exact .application wrong
    · exact .root marked wrong
    · exact .path marked wrong
  · cases h with
    | application wrong => exact .inl ⟨_, wrong, rfl⟩
    | root marked wrong => exact .inr (.inl ⟨marked, _, wrong, rfl⟩)
    | path marked wrong => exact .inr (.inr ⟨marked, _, wrong, rfl⟩)

theorem validate_eq_nil : validate e = [] ↔ Conforms e := by
  have guarded (l : List Violation) :
      (if e.isInteractive then l else []) = [] ↔ (Marked e → l = []) := by
    rw [← isInteractive_eq_true]
    simp
  simp only [validate_eq, byRule, List.flatten_eq_nil_iff, List.forall_mem_cons, guarded,
    ruled_eq_nil, exactlyOne_eq_none, rootFirst_eq_none]
  refine ⟨?_, fun h => ?_⟩
  · rintro ⟨application, root, path, -⟩
    exact ⟨application, fun marked => (root marked).1, fun marked => (root marked).2, path⟩
  · exact ⟨h.application, fun marked => ⟨h.root marked, h.outermost marked⟩, h.path, nofun⟩

theorem validate_sublist : ((validate e).map Violation.contextType).Sublist
    [Names.applicationContext, Names.rootLocationContext, Names.pathContext] := by
  have guarded {l : List Violation} {type : String}
      (h : (l.map Violation.contextType).Sublist [type]) :
      ((if e.isInteractive then l else []).map Violation.contextType).Sublist [type] := by
    split
    · exact h
    · exact List.nil_sublist _
  simpa [validate_eq, byRule] using
    sublist_ruled.append ((guarded sublist_ruled).append (guarded sublist_ruled))

/-- An event passes if it conforms to the rules and only then; otherwise it is told of what it
breaks, and of nothing else. -/
theorem validate_correct (e : Event) :
    (validate e = [] ↔ Conforms e) ∧
      ((validate e).map Violation.contextType).Sublist
        [Names.applicationContext, Names.rootLocationContext, Names.pathContext] ∧
      ∀ v, v ∈ validate e ↔ Breaks e v :=
  ⟨validate_eq_nil, validate_sublist, fun _ => mem_validate⟩

end EventTracking.Taxonomy
