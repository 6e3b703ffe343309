import Mathlib.Data.List.Chain
import Mathlib.Data.List.Induction
import Mathlib.Logic.Relation
import EventTracking.Context.Tree
import EventTracking.Proofs.Before

set_option autoImplicit false

namespace EventTracking

open scoped List

namespace LocationTree

inductive Edit
  | add (x : Occurrence) (parent : Option Occurrence)
  | remove (x : Occurrence)
  | clear

def edit (t : LocationTree) : Edit → LocationTree
  | .add x parent => (t.add x (parent.map Occurrence.id)).toOption.getD t
  | .remove x => t.remove x.id
  | .clear => t.clear

def edited (edits : List Edit) : LocationTree := edits.foldl edit {}

structure WellFormed (t : LocationTree) : Prop where
  distinct : t.order.Nodup
  listed : ∀ id, id ∈ t.order ↔ id ∈ t.nodes.keys
  own : ∀ {id n}, t.find? id = some n → n.id = id
  parents : ∀ {id n p}, t.find? id = some n → n.parent = some p →
    t.contains p ∧ Before t.order p id

def IsParent (t : LocationTree) (p id : InstanceId) : Prop := t.parent? id = some p

-- What the way up from `start` can have come to: the next occurrence to look at, and those that
-- were passed.
inductive Climbs (t : LocationTree) (start : InstanceId) :
    Option InstanceId → List Occurrence → Prop
  | start : Climbs t start (some start) []
  | up {id : InstanceId} {below : List Occurrence} {n : LocationNode} :
    Climbs t start (some id) below → t.find? id = some n →
    Climbs t start n.parent (n.occurrence :: below)

structure IsStack (t : LocationTree) (id : InstanceId) (stack : List Occurrence) : Prop where
  stored : ∀ x ∈ stack, ∃ n, t.find? x.id = some n ∧ n.occurrence = x
  top : ∃ x, stack.head? = some x ∧ t.parent? x.id = none
  nested : stack.IsChain fun x y => t.IsParent x.id y.id
  bottom : ∃ x, stack.getLast? = some x ∧ x.id = id

section Operations

variable {t : LocationTree} {id p : InstanceId} {n : LocationNode}

theorem contains_iff : t.contains id ↔ ∃ n, t.find? id = some n := by
  simp [contains, find?, Table.contains, Option.isSome_iff_exists]

theorem parent?_of_find? (found : t.find? id = some n) : t.parent? id = n.parent := by
  simp [parent?, found]

theorem find?_register :
    (t.register n).find? id = if id = n.id then some n else t.find? id :=
  Table.find?_insert t.nodes n.id id n

theorem contains_register : (t.register n).contains id ↔ id = n.id ∨ t.contains id := by
  simp only [contains_iff, find?_register]
  by_cases same : id = n.id <;> simp [same]

theorem find?_without {gone : List InstanceId} :
    (t.without gone).find? id = if id ∈ gone then none else t.find? id := by
  simp [find?, without, Table.find?_filter]

theorem contains_without {gone : List InstanceId} :
    (t.without gone).contains id ↔ id ∉ gone ∧ t.contains id := by
  simp only [contains_iff, find?_without]
  by_cases lost : id ∈ gone <;> simp [lost]

theorem mem_collect {found : List InstanceId} {i : InstanceId} :
    i ∈ t.collect found id ↔ i ∈ found ∨ i = id ∧ ∃ p ∈ found, t.IsParent p id := by
  unfold collect IsParent
  cases known : t.parent? id with
  | none => simp
  | some p => by_cases lost : p ∈ found <;> simp [lost, or_comm]

theorem subset_foldl_collect (ids found : List InstanceId) :
    found ⊆ ids.foldl t.collect found := by
  induction ids generalizing found with
  | nil => simp
  | cons i ids ih =>
    intro j mem
    exact ih _ (mem_collect.2 (.inl mem))

theorem mem_of_foldl_collect {ids found : List InstanceId}
    (mem : id ∈ ids.foldl t.collect found) : id ∈ found ∨ id ∈ ids := by
  induction ids generalizing found with
  | nil => exact .inl mem
  | cons i ids ih =>
    rcases ih mem with early | late
    · rcases mem_collect.1 early with old | ⟨rfl, _⟩
      · exact .inl old
      · exact .inr (by simp)
    · exact .inr (by simp [late])

end Operations

namespace WellFormed

variable {t : LocationTree} {id p : InstanceId} {n : LocationNode}

theorem mem_order (fine : t.WellFormed) : id ∈ t.order ↔ t.contains id :=
  (fine.listed id).trans Table.mem_keys

theorem of_contains {t : LocationTree} (distinct : t.order.Nodup)
    (listed : ∀ id, id ∈ t.order ↔ t.contains id)
    (own : ∀ {id n}, t.find? id = some n → n.id = id)
    (parents : ∀ {id n p}, t.find? id = some n → n.parent = some p →
      t.contains p ∧ Before t.order p id) : t.WellFormed where
  distinct := distinct
  listed id := (listed id).trans Table.mem_keys.symm
  own := own
  parents := parents

theorem empty : WellFormed {} where
  distinct := List.nodup_nil
  listed id := by
    constructor <;> intro mem <;> cases mem
  own found := by simp [find?] at found
  parents found := by simp [find?] at found

theorem register (fine : t.WellFormed) (fresh : ¬ t.contains n.id)
    (nested : ∀ p, n.parent = some p → t.contains p) : (t.register n).WellFormed := by
  have new : n.id ∉ t.order := fun mem => fresh (fine.mem_order.1 mem)
  refine of_contains ?distinct ?listed ?own ?parents
  case distinct => simpa [LocationTree.register, List.nodup_append] using
    ⟨fine.distinct, fun i mem same => new (same ▸ mem)⟩
  case listed =>
    intro id
    rw [contains_register, ← fine.mem_order, or_comm]
    simp [LocationTree.register]
  case own =>
    intro id m found
    rw [find?_register] at found
    split at found
    next same => cases found; exact same.symm
    next => exact fine.own found
  case parents =>
    intro id m p found parent
    rw [find?_register] at found
    split at found
    next same =>
      obtain rfl : n = m := Option.some.inj found
      have there := nested p parent
      exact ⟨contains_register.2 (.inr there), same ▸ .last (fine.mem_order.2 there) n.id⟩
    next =>
      obtain ⟨there, before⟩ := fine.parents found parent
      exact ⟨contains_register.2 (.inr there),
        before.of_sublist (List.sublist_append_left t.order [n.id])⟩

theorem add (fine : t.WellFormed) {x : Occurrence} {parent : Option InstanceId}
    {t' : LocationTree} (added : t.add x parent = .ok t') : t'.WellFormed := by
  unfold LocationTree.add at added
  split at added
  next => cases added; exact fine
  next fresh =>
    cases parent with
    | none => cases added; exact fine.register fresh (by simp)
    | some p =>
      simp only at added
      split at added
      next there =>
        cases added
        exact fine.register fresh fun q same => Option.some.inj same ▸ there
      next => cases added

theorem without (fine : t.WellFormed) {gone : List InstanceId}
    (closed : ∀ {id p}, t.IsParent p id → p ∈ gone → id ∈ gone) :
    (t.without gone).WellFormed := by
  refine of_contains ?distinct ?listed ?own ?parents
  case distinct => exact fine.distinct.sublist List.filter_sublist
  case listed =>
    intro id
    rw [contains_without, ← fine.mem_order, and_comm]
    simp [LocationTree.without]
  case own =>
    intro id m found
    rw [find?_without] at found
    split at found
    next => cases found
    next => exact fine.own found
  case parents =>
    intro id m p found parent
    rw [find?_without] at found
    split at found
    next => cases found
    next stays =>
      obtain ⟨there, before⟩ := fine.parents found parent
      have kept : p ∉ gone := fun lost =>
        stays (closed ((parent?_of_find? found).trans parent) lost)
      exact ⟨contains_without.2 ⟨kept, there⟩, before.filter (by simpa) (by simpa)⟩

theorem before (fine : t.WellFormed) (nested : t.IsParent p id) : Before t.order p id := by
  obtain ⟨n, found, parent⟩ := Option.bind_eq_some_iff.1 nested
  exact (fine.parents found parent).2

theorem doomed_closed (fine : t.WellFormed) (root : InstanceId) (nested : t.IsParent p id)
    (lost : p ∈ t.doomed root) : id ∈ t.doomed root := by
  have before := fine.before nested
  obtain ⟨early, late, split⟩ := List.append_of_mem before.right_mem
  have order : t.order.Nodup := fine.distinct
  rw [split] at before order
  have apart : p ≠ id := before.ne order
  have passed : p ∉ late := fun mem =>
    before.asymm order ((List.singleton_sublist.2 mem).cons_cons id |>.trans
      (List.sublist_append_right early _))
  simp only [doomed, split, List.foldl_append, List.foldl_cons] at lost ⊢
  have known : p ∈ t.collect (early.foldl t.collect [root]) id :=
    (mem_of_foldl_collect lost).resolve_right passed
  have known : p ∈ early.foldl t.collect [root] :=
    (mem_collect.1 known).resolve_right fun here => apart here.1
  exact subset_foldl_collect late _ (mem_collect.2 (.inr ⟨rfl, p, known, nested⟩))

theorem remove (fine : t.WellFormed) (root : InstanceId) : (t.remove root).WellFormed :=
  fine.without fun nested lost => fine.doomed_closed root nested lost

theorem edit (fine : t.WellFormed) (e : Edit) : (t.edit e).WellFormed := by
  cases e with
  | add x parent =>
    cases added : t.add x (parent.map Occurrence.id) with
    | ok t' => simpa [LocationTree.edit, added, Except.toOption] using fine.add added
    | error => simpa [LocationTree.edit, added, Except.toOption] using fine
  | remove x => exact fine.remove x.id
  | clear => exact empty

theorem edited (edits : List Edit) : (edited edits).WellFormed := by
  unfold LocationTree.edited
  induction edits using List.reverseRecOn with
  | nil => exact empty
  | append_singleton edits e ih =>
    rw [List.foldl_append]
    exact ih.edit e

theorem acyclic (fine : t.WellFormed) (id : InstanceId) : ¬ Relation.TransGen t.IsParent id id := by
  have descends : ∀ {i j}, Relation.TransGen t.IsParent i j →
      t.order.idxOf i < t.order.idxOf j := by
    intro i j above
    induction above with
    | single nested => exact (fine.before nested).idxOf_lt fine.distinct
    | tail _ nested ih => exact Nat.lt_trans ih ((fine.before nested).idxOf_lt fine.distinct)
  exact fun cycle => Nat.lt_irrefl _ (descends cycle)

theorem order_length (fine : t.WellFormed) : t.order.length = t.size := by
  have same : t.order ~ t.nodes.keys :=
    (List.perm_ext_iff_of_nodup fine.distinct t.nodes.distinct).2 fine.listed
  simpa [Table.keys, size, Table.size] using same.length_eq

theorem climbs_sublist (fine : t.WellFormed) {start : InstanceId} {next : Option InstanceId}
    {below : List Occurrence} (climbs : t.Climbs start next below) :
    below.map Occurrence.id <+ t.order ∧
      ∀ p, next = some p → below = [] ∨ p :: below.map Occurrence.id <+ t.order := by
  induction climbs with
  | start => exact ⟨by simp, fun _ _ => .inl rfl⟩
  | @up id below n climbs found ih =>
    have own : n.occurrence.id = id := fine.own found
    have passed : id :: below.map Occurrence.id <+ t.order := by
      rcases ih.2 id rfl with rfl | above
      · exact List.singleton_sublist.2 (fine.mem_order.2 (contains_iff.2 ⟨n, found⟩))
      · exact above
    rw [List.map_cons, own]
    exact ⟨passed, fun p parent =>
      .inr ((fine.parents found parent).2.cons_sublist fine.distinct passed)⟩

theorem climbs_length (fine : t.WellFormed) {start : InstanceId} {next : Option InstanceId}
    {below : List Occurrence} (climbs : t.Climbs start next below) : below.length ≤ t.size := by
  have short := (fine.climbs_sublist climbs).1.length_le
  rwa [List.length_map, fine.order_length] at short

theorem isStack_top (fine : t.WellFormed) (found : t.find? id = some n) (top : n.parent = none) :
    t.IsStack id [n.occurrence] := by
  have own : n.occurrence.id = id := fine.own found
  refine ⟨?_, ⟨_, rfl, ?_⟩, .singleton _, ⟨_, rfl, own⟩⟩
  · intro x mem
    obtain rfl := List.mem_singleton.1 mem
    exact ⟨n, own ▸ found, rfl⟩
  · rw [own, parent?_of_find? found, top]

theorem isStack_under (fine : t.WellFormed) (found : t.find? id = some n)
    (parent : n.parent = some p) {above : List Occurrence} (stack : t.IsStack p above) :
    t.IsStack id (above ++ [n.occurrence]) := by
  have own : n.occurrence.id = id := fine.own found
  obtain ⟨x, last, rfl⟩ := stack.bottom
  refine ⟨?_, ?_, ?_, ⟨n.occurrence, by simp, own⟩⟩
  · intro y mem
    rcases List.mem_append.1 mem with old | new
    · exact stack.stored y old
    · obtain rfl := List.mem_singleton.1 new
      exact ⟨n, own ▸ found, rfl⟩
  · obtain ⟨first, head, top⟩ := stack.top
    exact ⟨first, by simp [head], top⟩
  · refine stack.nested.append (.singleton _) ?_
    intro y inner z outer
    obtain rfl : x = y := Option.some.inj (last.symm.trans inner)
    obtain rfl : n.occurrence = z := Option.some.inj outer
    rw [IsParent, own, parent?_of_find? found, parent]

theorem climb_ends (fine : t.WellFormed) {start : InstanceId} {below : List Occurrence}
    (climbs : t.Climbs start (some id) below) (there : t.contains id) :
    ∃ above, t.climb id below = some (above ++ below) ∧ t.IsStack id above := by
  fun_induction t.climb id below with
  | case1 id below missing =>
    obtain ⟨n, found⟩ := contains_iff.1 there
    simp [missing] at found
  | case2 id below n found many =>
    have few := fine.climbs_length (climbs.up found)
    exact absurd many (Nat.not_lt.2 few)
  | case3 id below n found few top =>
    exact ⟨[n.occurrence], rfl, fine.isStack_top found top⟩
  | case4 id below n found few p parent ih =>
    obtain ⟨above, ends, stack⟩ := ih (parent ▸ climbs.up found) (fine.parents found parent).1
    exact ⟨above ++ [n.occurrence], by simpa using ends, fine.isStack_under found parent stack⟩

theorem stack?_isSome (fine : t.WellFormed) (id : InstanceId) :
    (t.stack? id).isSome = t.contains id := by
  cases there : t.contains id with
  | true =>
    obtain ⟨above, ends, _⟩ := fine.climb_ends .start there
    simp [stack?, ends]
  | false =>
    have missing : t.find? id = none := by simpa [contains, Table.contains, find?] using there
    simp [stack?, climb, missing]

theorem stack?_isStack (fine : t.WellFormed) {stack : List Occurrence}
    (found : t.stack? id = some stack) : t.IsStack id stack := by
  have there : t.contains id := by rw [← fine.stack?_isSome, found, Option.isSome_some]
  obtain ⟨above, ends, chain⟩ := fine.climb_ends .start there
  obtain rfl : stack = above := by simpa using Option.some.inj (found.symm.trans ends)
  exact chain

end WellFormed

/-- Any edits of an empty tree make a well-formed one. In it no occurrence is above itself, the
way up from any id passes at most as many occurrences as the tree has, and it ends at the top
exactly if the id is in the tree. -/
theorem edits_wellFormed (edits : List Edit) :
    (edited edits).WellFormed ∧
      (∀ id, ¬ Relation.TransGen (edited edits).IsParent id id) ∧
      (∀ start next below, (edited edits).Climbs start next below →
        below.length ≤ (edited edits).size) ∧
      ∀ id, ((edited edits).stack? id).isSome = (edited edits).contains id ∧
        ∀ stack, (edited edits).stack? id = some stack → (edited edits).IsStack id stack := by
  have fine := WellFormed.edited edits
  exact ⟨fine, fine.acyclic, fun _ _ _ climbs => fine.climbs_length climbs,
    fun id => ⟨fine.stack?_isSome id, fun _ found => fine.stack?_isStack found⟩⟩

end LocationTree

end EventTracking
