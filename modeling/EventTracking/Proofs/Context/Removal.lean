import EventTracking.Proofs.Context.Ancestry

set_option autoImplicit false

namespace EventTracking

open scoped List

namespace Table

variable {κ α : Type}

theorem filter_eq_self {p : κ → Bool} {t : Table κ α} (all : ∀ key ∈ t.keys, p key = true) :
    t.filter p = t := by
  obtain ⟨entries, distinct⟩ := t
  have same : entries.filter (fun e => p e.1) = entries :=
    List.filter_eq_self.2 fun e he => all e.1 (List.mem_map_of_mem he)
  simp [filter, same]

end Table

namespace LocationTree

-- Whether `p` is in the chain from `id` up to the top, `id` included.
def IsAbove (t : LocationTree) (p id : InstanceId) : Prop := Relation.ReflTransGen t.IsParent p id

def Within (t t' : LocationTree) : Prop := ∀ id n, t.find? id = some n → t'.find? id = some n

structure Alike (t t' : LocationTree) (id : InstanceId) : Prop where
  node : t'.find? id = t.find? id
  stack : t'.stack? id = t.stack? id
  path : t'.path? id = t.path? id

section Operations

variable {t : LocationTree} {id p : InstanceId}

theorem within_register {n : LocationNode} (fresh : ¬ t.contains n.id) :
    t.Within (t.register n) := by
  intro id m found
  rw [find?_register, if_neg]
  · exact found
  · rintro rfl
    exact fresh (contains_iff.2 ⟨m, found⟩)

theorem within_add (x : Occurrence) (parent : Option Occurrence) :
    t.Within (t.edit (.add x parent)) := by
  have same : t.Within t := fun _ _ found => found
  simp only [edit, add]
  split
  next => exact same
  next fresh =>
    have grows (parent : Option InstanceId) : t.Within (t.register ⟨x, parent⟩) :=
      within_register fresh
    cases parent with
    | none => exact grows none
    | some p =>
      simp only [Option.map_some]
      split
      next => exact grows (some p.id)
      next => exact same

theorem within_without (gone : List InstanceId) : (t.without gone).Within t := by
  intro id n found
  rw [find?_without] at found
  split at found
  next => cases found
  next => exact found

theorem isAbove_of_foldl_collect {root : InstanceId} {ids found : List InstanceId}
    (before : ∀ i ∈ found, t.IsAbove root i) :
    ∀ i ∈ ids.foldl t.collect found, t.IsAbove root i := by
  induction ids generalizing found with
  | nil => exact before
  | cons i ids ih =>
    apply ih
    intro j mem
    rcases mem_collect.1 mem with old | ⟨rfl, p, lost, nested⟩
    · exact before j old
    · exact (before p lost).tail nested

end Operations

namespace WellFormed

variable {t t' : LocationTree} {id p root : InstanceId} {n : LocationNode}

theorem contains_parent (fine : t.WellFormed) (nested : t.IsParent p id) : t.contains p := by
  obtain ⟨n, found, parent⟩ := Option.bind_eq_some_iff.1 nested
  exact (fine.parents found parent).1

theorem contains_above (fine : t.WellFormed) (above : t.IsAbove p id) (there : t.contains id) :
    t.contains p := by
  rcases above.cases_head with rfl | ⟨_, nested, _⟩
  · exact there
  · exact fine.contains_parent nested

theorem induction (fine : t.WellFormed) {motive : InstanceId → Prop}
    (step : ∀ {id n}, t.find? id = some n → (∀ p, n.parent = some p → motive p) → motive id)
    (there : t.contains id) : motive id := by
  induction rank : t.order.idxOf id using Nat.strongRecOn generalizing id with
  | ind _ ih =>
    obtain ⟨n, found⟩ := contains_iff.1 there
    apply step found
    intro p parent
    obtain ⟨inside, before⟩ := fine.parents found parent
    exact ih _ (rank ▸ before.idxOf_lt fine.distinct) inside rfl

theorem mem_doomed (fine : t.WellFormed) : id ∈ t.doomed root ↔ t.IsAbove root id := by
  constructor
  · apply isAbove_of_foldl_collect
    rintro i mem
    rw [List.mem_singleton.1 mem]
    exact .refl
  · intro above
    induction above with
    | refl => exact subset_foldl_collect t.order [root] (by simp)
    | tail _ nested ih => exact fine.doomed_closed root nested ih

theorem mem_order_remove (fine : t.WellFormed) :
    id ∈ (t.remove root).order ↔ id ∈ t.order ∧ ¬ t.IsAbove root id := by
  simp [LocationTree.remove, LocationTree.without, fine.mem_doomed]

theorem climb_append (fine : t.WellFormed) {start : InstanceId} {below : List Occurrence}
    (climbs : t.Climbs start (some id) below) (there : t.contains id) :
    t.climb id below = (t.climb id []).map (· ++ below) := by
  revert start below
  refine fine.induction (motive := fun id => ∀ {start below}, t.Climbs start (some id) below →
    t.climb id below = (t.climb id []).map (· ++ below)) ?_ there
  intro id n found ih start below climbs
  have few : ¬ t.size < below.length + 1 :=
    Nat.not_lt.2 (fine.climbs_length (climbs.up found))
  have some_ : ¬ t.size < ([] : List Occurrence).length + 1 := by
    simp only [List.length_nil]
    omega
  rw [climb, climb, found]
  simp only [if_neg few, if_neg some_]
  cases parent : n.parent with
  | none => simp
  | some p =>
    have higher : t.Climbs start (some p) (n.occurrence :: below) := parent ▸ climbs.up found
    have first : t.Climbs id (some p) [n.occurrence] := parent ▸ Climbs.start.up found
    simp only
    rw [ih p parent higher, ih p parent first]
    simp [Function.comp_def]

theorem stack?_of_find? (fine : t.WellFormed) (found : t.find? id = some n) :
    t.stack? id = match n.parent with
      | none => some [n.occurrence]
      | some p => (t.stack? p).map (· ++ [n.occurrence]) := by
  have some_ : ¬ t.size < ([] : List Occurrence).length + 1 :=
    Nat.not_lt.2 (fine.climbs_length (Climbs.start.up found))
  rw [stack?, climb, found]
  simp only [if_neg some_]
  cases parent : n.parent with
  | none => rfl
  | some p =>
    have climbs : t.Climbs id (some p) [n.occurrence] := parent ▸ Climbs.start.up found
    exact fine.climb_append climbs (fine.parents found parent).1

theorem stack?_of_within (fine : t.WellFormed) (fine' : t'.WellFormed) (within : t.Within t')
    (there : t.contains id) : t'.stack? id = t.stack? id := by
  refine fine.induction (motive := fun id => t'.stack? id = t.stack? id) ?_ there
  intro id n found ih
  rw [fine.stack?_of_find? found, fine'.stack?_of_find? (within id n found)]
  cases parent : n.parent with
  | none => rfl
  | some p => simp only [ih p parent]

theorem alike (fine : t.WellFormed) (fine' : t'.WellFormed) (within : t.Within t')
    (there : t.contains id) : t.Alike t' id := by
  obtain ⟨n, found⟩ := contains_iff.1 there
  have stack := fine.stack?_of_within fine' within there
  exact ⟨(within id n found).trans found.symm, stack, by rw [path?, path?, stack]⟩

theorem remove_eq_self (fine : t.WellFormed) (missing : ¬ t.contains root) :
    t.remove root = t := by
  have stays {i : InstanceId} (there : t.contains i) : (!(t.doomed root).contains i) = true := by
    have apart : i ∉ t.doomed root := fun lost =>
      missing (fine.contains_above (fine.mem_doomed.1 lost) there)
    simpa using apart
  have nodes : t.nodes.filter (fun i => !(t.doomed root).contains i) = t.nodes :=
    Table.filter_eq_self fun i mem => stays (Table.mem_keys.1 mem)
  have order : t.order.filter (fun i => !(t.doomed root).contains i) = t.order :=
    List.filter_eq_self.2 fun i mem => stays (fine.mem_order.1 mem)
  rw [LocationTree.remove, LocationTree.without, nodes, order]

end WellFormed

/-- What a removal leaves of a tree that edits have made: the occurrences that do not have the
removed one in their chain of ancestors, in their order, each with its node, its stack and its path.
Where nothing is registered to remove, nothing changes. What is added changes none of this for those
that are there. -/
theorem edits_remove (edits : List Edit) (x : Occurrence) :
    ((edited edits).remove x.id).order <+ (edited edits).order ∧
      (∀ id, id ∈ ((edited edits).remove x.id).order ↔
        id ∈ (edited edits).order ∧ ¬ (edited edits).IsAbove x.id id) ∧
      (∀ id, ((edited edits).remove x.id).contains id ↔
        (edited edits).contains id ∧ ¬ (edited edits).IsAbove x.id id) ∧
      (∀ id, ((edited edits).remove x.id).contains id →
        (edited edits).Alike ((edited edits).remove x.id) id) ∧
      (¬ (edited edits).contains x.id → (edited edits).remove x.id = edited edits) ∧
      ∀ y parent id, (edited edits).contains id →
        (edited edits).Alike ((edited edits).edit (.add y parent)) id := by
  have fine := WellFormed.edited edits
  have rest := fine.remove x.id
  have left (id : InstanceId) : ((edited edits).remove x.id).contains id ↔
      (edited edits).contains id ∧ ¬ (edited edits).IsAbove x.id id := by
    rw [← rest.mem_order, ← fine.mem_order, fine.mem_order_remove]
  refine ⟨List.filter_sublist, fun _ => fine.mem_order_remove, left, ?_, fine.remove_eq_self, ?_⟩
  · intro id there
    have same := rest.alike fine (within_without _) there
    exact ⟨same.node.symm, same.stack.symm, same.path.symm⟩
  · intro y parent id there
    exact fine.alike (fine.edit (.add y parent)) (within_add y parent) there

end LocationTree

end EventTracking
