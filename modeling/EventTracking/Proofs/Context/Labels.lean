import Mathlib.Data.List.Basic
import EventTracking.Proofs.Context.Collisions

set_option autoImplicit false

namespace EventTracking

open scoped List

def Context.pair (c : Context) : String × String := (c.type, c.id)

-- Whether the label of a context can be told apart from what stands around it in a path: there is
-- no colon in its type, and no separator begins in its id, be it one that ends in the separator
-- behind the id.
def Context.IsPlain (c : Context) : Prop :=
  ':' ∉ c.type.toList ∧ ¬ " / ".toList <:+: c.id.toList ++ [' ']

namespace LocationTree

def pathText (stack : List Occurrence) : String :=
  " / ".intercalate (stack.map fun x => label x.context)

def pairs (stack : List Occurrence) : List (String × String) := stack.map fun x => x.context.pair

section Text

variable {a b d r s : List Char} {x y : Occurrence} {stack others : List Occurrence}

def separator : List Char := [' ', '/', ' ']

def tailText (stack : List Occurrence) : List Char :=
  stack.flatMap fun x => separator ++ (label x.context).toList

-- What may follow a label: nothing, or another one behind a separator.
def Follows (r : List Char) : Prop := r = [] ∨ separator <+: r

theorem toList_label (c : Context) : (label c).toList = c.type.toList ++ ':' :: c.id.toList := by
  simp [label]

theorem follows_tailText (stack : List Occurrence) : Follows (tailText stack) := by
  cases stack with
  | nil => exact .inl rfl
  | cons x stack => exact .inr ⟨_, (List.append_assoc ..).symm⟩

theorem separator_append_pathText (x : Occurrence) (stack : List Occurrence) :
    separator ++ (pathText (x :: stack)).toList = tailText (x :: stack) := by
  have sep : " / ".toList = separator := rfl
  rw [pathText, String.toList_intercalate, sep]
  induction stack generalizing x with
  | nil => simp [tailText]
  | cons y stack ih =>
    have rest := ih y
    simp only [List.map_cons] at rest ⊢
    rw [List.intercalate_cons_cons, List.append_assoc, rest]
    simp [tailText]

theorem eq_nil_of_follows (plain : ¬ separator <:+: (a ++ d) ++ [' ']) (before : Follows (d ++ s))
    (behind : Follows s) : d = [] := by
  have starts {l : List Char} {c : Char} {rest : List Char} (front : c :: rest <+: l) :
      ∃ more, l = c :: more ∧ rest <+: more := by
    obtain ⟨more, rfl⟩ := front
    exact ⟨rest ++ more, rfl, List.prefix_append rest more⟩
  rcases before with none | front
  · exact (List.append_eq_nil_iff.1 none).1
  match d with
  | [] => rfl
  | [x] =>
    -- The separator would go on with the slash that `s` would begin with.
    obtain ⟨_, split, front⟩ := starts front
    obtain ⟨rfl, rfl⟩ := List.cons.inj split
    obtain ⟨_, rfl, _⟩ := starts front
    rcases behind with none | behind
    · cases none
    · obtain ⟨_, other, _⟩ := starts behind
      cases other
  | [x, y] =>
    obtain ⟨_, split, front⟩ := starts front
    obtain ⟨rfl, rfl⟩ := List.cons.inj split
    obtain ⟨_, split, front⟩ := starts front
    obtain ⟨rfl, rfl⟩ := List.cons.inj split
    exact absurd ⟨a, [], by simp [separator]⟩ plain
  | x :: y :: z :: d =>
    obtain ⟨_, split, front⟩ := starts front
    obtain ⟨rfl, rfl⟩ := List.cons.inj split
    obtain ⟨_, split, front⟩ := starts front
    obtain ⟨rfl, rfl⟩ := List.cons.inj split
    obtain ⟨_, split, front⟩ := starts front
    obtain ⟨rfl, rfl⟩ := List.cons.inj split
    exact absurd ⟨a, d ++ [' '], by simp [separator]⟩ plain

theorem append_inj_of_follows (plainA : ¬ separator <:+: a ++ [' '])
    (plainB : ¬ separator <:+: b ++ [' ']) (behindA : Follows r) (behindB : Follows s)
    (same : a ++ r = b ++ s) : a = b ∧ r = s := by
  rcases List.append_eq_append_iff.1 same with ⟨d, rfl, rfl⟩ | ⟨d, rfl, rfl⟩
  · obtain rfl := eq_nil_of_follows plainB behindA behindB
    simp
  · obtain rfl := eq_nil_of_follows plainA behindB behindA
    simp

theorem append_cons_inj_of_front {c : Char} (newA : c ∉ a) (newB : c ∉ b)
    (same : a ++ c :: r = b ++ c :: s) : a = b ∧ r = s := by
  rcases List.append_eq_append_iff.1 same with ⟨d, rfl, split⟩ | ⟨d, rfl, split⟩
  all_goals
    cases d with
    | nil => simpa [eq_comm] using split
    | cons x d =>
      obtain ⟨rfl, -⟩ := List.cons.inj split
      simp at newA newB

theorem label_append_inj {c d : Context} (plainC : c.IsPlain) (plainD : d.IsPlain)
    (behindC : Follows r) (behindD : Follows s)
    (same : (label c).toList ++ r = (label d).toList ++ s) : c.pair = d.pair ∧ r = s := by
  simp only [toList_label, List.append_assoc, List.cons_append] at same
  obtain ⟨type, same⟩ := append_cons_inj_of_front plainC.1 plainD.1 same
  obtain ⟨id, rest⟩ := append_inj_of_follows plainC.2 plainD.2 behindC behindD same
  exact ⟨Prod.ext (String.toList_inj.1 type) (String.toList_inj.1 id), rest⟩

theorem pairs_eq_of_tailText (plain : ∀ x ∈ stack ++ others, x.context.IsPlain)
    (same : tailText stack = tailText others) : pairs stack = pairs others := by
  induction stack generalizing others with
  | nil =>
    cases others with
    | nil => rfl
    | cons y others => simp [tailText, separator] at same
  | cons x stack ih =>
    cases others with
    | nil => simp [tailText, separator] at same
    | cons y others =>
      have first : (label x.context).toList ++ tailText stack =
          (label y.context).toList ++ tailText others := by
        simpa [tailText] using same
      obtain ⟨pair, rest⟩ := label_append_inj (plain x (by simp)) (plain y (by simp))
        (follows_tailText stack) (follows_tailText others) first
      have behind := ih (fun z mem => plain z (by simp at mem ⊢; tauto)) rest
      exact congrArg₂ List.cons pair behind

theorem pathText_eq_iff (plain : ∀ z ∈ (x :: stack) ++ (y :: others), z.context.IsPlain) :
    pathText (x :: stack) = pathText (y :: others) ↔
      pairs (x :: stack) = pairs (y :: others) := by
  constructor
  · intro same
    apply pairs_eq_of_tailText plain
    rw [← separator_append_pathText, ← separator_append_pathText, same]
  · intro same
    have labels (stack : List Occurrence) : (stack.map fun x => label x.context) =
        (pairs stack).map fun p => p.1 ++ ":" ++ p.2 := by
      simp [pairs, label, Context.pair]
    rw [pathText, pathText, labels, labels, same]

end Text

section Trees

variable {t : LocationTree} {i j id p : InstanceId} {x : Occurrence} {a b above : List Occurrence}

def Collide (t : LocationTree) (i j : InstanceId) : Prop :=
  ∃ c ∈ t.collisions, i ∈ c.instances ∧ j ∈ c.instances

def Confuses (t : LocationTree) (i j : InstanceId) : Prop :=
  t.Collide i j ∧ ∃ a b, t.stack? i = some a ∧ t.stack? j = some b ∧ pairs a ≠ pairs b

theorem path?_eq (t : LocationTree) (id : InstanceId) : t.path? id = (t.stack? id).map pathText :=
  rfl

namespace WellFormed

variable (fine : t.WellFormed)

include fine

theorem stack?_top (found : t.find? id = some ⟨x, none⟩) : t.stack? id = some [x] :=
  fine.stack?_of_find? found

theorem stack?_under (found : t.find? id = some ⟨x, some p⟩) (parent : t.stack? p = some above) :
    t.stack? id = some (above ++ [x]) := by
  rw [fine.stack?_of_find? found]
  simp [parent]

theorem collide_iff (apart : i ≠ j) : t.Collide i j ↔ t.SamePath i j := by
  constructor
  · rintro ⟨c, mem, memI, memJ⟩
    have mem := (fine.mem_collisions.1 mem).1
    exact (fine.instances_eq_class mem memI).le memJ
  · intro same
    obtain ⟨c, mem, memI⟩ := fine.exists_collision apart same
    exact ⟨c, mem, memI, (fine.instances_eq_class (fine.mem_collisions.1 mem).1 memI).ge same⟩

theorem samePath_iff : t.SamePath i j ↔
    ∃ a b, t.stack? i = some a ∧ t.stack? j = some b ∧ pathText a = pathText b := by
  simp only [SamePath, ← fine.stack?_isSome, Option.isSome_iff_exists, path?_eq]
  constructor
  · rintro ⟨⟨a, stackI⟩, ⟨b, stackJ⟩, same⟩
    exact ⟨a, b, stackI, stackJ, by simpa [stackI, stackJ] using same⟩
  · rintro ⟨a, b, stackI, stackJ, same⟩
    exact ⟨⟨a, stackI⟩, ⟨b, stackJ⟩, by simpa [stackI, stackJ] using same⟩

theorem ne_nil_of_stack? (stack : t.stack? id = some a) : a ≠ [] := by
  obtain ⟨x, head, -⟩ := (fine.stack?_isStack stack).top
  rintro rfl
  cases head

theorem collide_iff_pairs (apart : i ≠ j) (stackI : t.stack? i = some a)
    (stackJ : t.stack? j = some b) (plain : ∀ x ∈ a ++ b, x.context.IsPlain) :
    t.Collide i j ↔ pairs a = pairs b := by
  obtain ⟨x, a, rfl⟩ := List.exists_cons_of_ne_nil (fine.ne_nil_of_stack? stackI)
  obtain ⟨y, b, rfl⟩ := List.exists_cons_of_ne_nil (fine.ne_nil_of_stack? stackJ)
  rw [fine.collide_iff apart, fine.samePath_iff, ← pathText_eq_iff plain]
  simp [stackI, stackJ]

theorem confuses (apart : i ≠ j) (stackI : t.stack? i = some a) (stackJ : t.stack? j = some b)
    (same : pathText a = pathText b) (different : pairs a ≠ pairs b) : t.Confuses i j :=
  ⟨(fine.collide_iff apart).2 (fine.samePath_iff.2 ⟨a, b, stackI, stackJ, same⟩),
    a, b, stackI, stackJ, different⟩

end WellFormed

def twoBranches (c c' d d' : Context) : List Edit :=
  [.add ⟨0, c⟩ none, .add ⟨1, c'⟩ (some ⟨0, c⟩), .add ⟨2, d⟩ none, .add ⟨3, d'⟩ (some ⟨2, d⟩)]

theorem stack?_twoBranches (c c' d d' : Context) :
    (edited (twoBranches c c' d d')).stack? 0 = some [⟨0, c⟩] ∧
      (edited (twoBranches c c' d d')).stack? 1 = some [⟨0, c⟩, ⟨1, c'⟩] ∧
      (edited (twoBranches c c' d d')).stack? 2 = some [⟨2, d⟩] ∧
      (edited (twoBranches c c' d d')).stack? 3 = some [⟨2, d⟩, ⟨3, d'⟩] := by
  have fine := WellFormed.edited (twoBranches c c' d d')
  have left : (edited (twoBranches c c' d d')).stack? 0 = some [⟨0, c⟩] := fine.stack?_top rfl
  have right : (edited (twoBranches c c' d d')).stack? 2 = some [⟨2, d⟩] := fine.stack?_top rfl
  exact ⟨left, fine.stack?_under rfl left, right, fine.stack?_under rfl right⟩

theorem confuses_of_colon {c : Context} (colon : ':' ∈ c.type.toList) :
    ∃ edits i j, (edited edits).Confuses i j ∧
      ∃ a, (edited edits).stack? i = some a ∧ ∃ x ∈ a, x.context = c := by
  obtain ⟨front, back, split⟩ := List.append_of_mem colon
  let d : Context := .new (.ofList front) (.ofList back ++ ":" ++ c.id)
  obtain ⟨left, -, right, -⟩ := stack?_twoBranches c c d d
  refine ⟨_, 0, 2, (WellFormed.edited _).confuses (by decide) left right ?_ ?_,
    _, left, ⟨0, c⟩, by simp, rfl⟩
  · apply String.toList_inj.1
    simp [pathText, label, d, Context.new, split]
  · intro same
    have type : c.type = .ofList front := by
      simp only [pairs, Context.pair, d, Context.new, List.map_cons, List.map_nil] at same
      exact congrArg Prod.fst (List.cons.inj same).1
    simpa [split] using congrArg String.toList type

theorem confuses_of_separator {c : Context} (inside : separator <:+: c.id.toList ++ [' ']) :
    ∃ edits i j, (edited edits).Confuses i j ∧
      ∃ a, (edited edits).stack? i = some a ∧ ∃ x ∈ a, x.context = c := by
  obtain ⟨front, back, split⟩ := inside
  let below : Context := .new "X" "y"
  let d : Context := .new c.type (.ofList front)
  let d' : Context := .new (.ofList (back ++ ['/', ' ', 'X'])) "y"
  obtain ⟨-, left, -, right⟩ := stack?_twoBranches c below d d'
  refine ⟨_, 1, 3, (WellFormed.edited _).confuses (by decide) left right ?_ ?_,
    _, left, ⟨0, c⟩, by simp, rfl⟩
  · apply String.toList_inj.1
    have reads (r : List Char) : c.id.toList ++ ' ' :: r = front ++ separator ++ back ++ r := by
      rw [List.append_cons, split]
    have rest := reads ['/', ' ', 'X', ':', 'y']
    simpa [pathText, label, below, d, d', Context.new, separator] using rest
  · intro same
    have id : c.id = .ofList front := by
      simp only [pairs, Context.pair, d, Context.new, List.map_cons, List.map_nil] at same
      exact congrArg Prod.snd (List.cons.inj same).1
    have length := congrArg List.length split
    simp [id, separator] at length

theorem exists_confuses {c : Context} (notPlain : ¬ c.IsPlain) :
    ∃ edits i j, (edited edits).Confuses i j ∧
      ∃ a, (edited edits).stack? i = some a ∧ ∃ x ∈ a, x.context = c := by
  by_cases colon : ':' ∈ c.type.toList
  · exact confuses_of_colon colon
  · exact confuses_of_separator (by_contra fun outside => notPlain ⟨colon, outside⟩)

/-- Occurrences collide exactly if their stacks read the same. Where the labels of both stacks are
plain, this is to say that the stacks have the same types and ids. -/
theorem edits_collide (edits : List Edit) {i j : InstanceId} (apart : i ≠ j) :
    ((edited edits).Collide i j ↔ ∃ a b, (edited edits).stack? i = some a ∧
      (edited edits).stack? j = some b ∧ pathText a = pathText b) ∧
    ∀ a b, (edited edits).stack? i = some a → (edited edits).stack? j = some b →
      (∀ x ∈ a ++ b, x.context.IsPlain) → ((edited edits).Collide i j ↔ pairs a = pairs b) := by
  have fine := WellFormed.edited edits
  exact ⟨(fine.collide_iff apart).trans fine.samePath_iff,
    fun a b stackI stackJ plain => fine.collide_iff_pairs apart stackI stackJ plain⟩

def docsBranches : List Edit :=
  twoBranches (.content "docs / LinkContext:api") (.pressable "buy") (.content "docs")
    (.new Names.linkContext "api")

theorem edits_collide_sample :
    (0 : InstanceId) ≠ 3 ∧ (edited docsBranches).Confuses 0 3 := by
  have apart : (0 : InstanceId) ≠ 3 := by decide
  obtain ⟨left, -, -, right⟩ := stack?_twoBranches (.content "docs / LinkContext:api")
    (.pressable "buy") (.content "docs") (.new Names.linkContext "api")
  have together := (edits_collide docsBranches apart).1.2 ⟨_, _, left, right, by decide⟩
  exact ⟨apart, together, _, _, left, right, by decide⟩

end Trees

end LocationTree

end EventTracking
