import Mathlib.Data.Set.Subsingleton
import EventTracking.Proofs.Context.Removal
import EventTracking.Proofs.Session.Reporting
import EventTracking.Session.Perform.Trees

set_option autoImplicit false

namespace EventTracking

open scoped List

theorem one_lt_length_iff_of_nodup {α : Type} {l : List α} (distinct : l.Nodup) :
    1 < l.length ↔ ∃ a ∈ l, ∃ b ∈ l, a ≠ b := by
  match l with
  | [] => simp
  | [a] => simp
  | a :: b :: rest =>
    have apart : a ≠ b := by
      rintro rfl
      simp at distinct
    exact iff_of_true (by simp) ⟨a, by simp, b, by simp, apart⟩

namespace LocationTree

variable {t : LocationTree} {edits : List Edit} {e : Edit} {i j id : InstanceId} {k m n : Nat}

section Time

def AddedAt (edits : List Edit) (k : Nat) (id : InstanceId) : Prop :=
  k < edits.length ∧ ¬ (edited (edits.take k)).contains id ∧
    ∀ n, k < n → n ≤ edits.length → (edited (edits.take n)).contains id

def AddedBefore (edits : List Edit) (i j : InstanceId) : Prop :=
  ∃ m n, m < n ∧ AddedAt edits m i ∧ AddedAt edits n j

theorem edited_append : edited (edits ++ [e]) = (edited edits).edit e := by simp [edited]

theorem AddedAt.contains (added : AddedAt edits k id) : (edited edits).contains id := by
  simpa using added.2.2 edits.length added.1 (Nat.le_refl _)

theorem addedAt_append : AddedAt (edits ++ [e]) k id ↔
    ((edited edits).edit e).contains id ∧
      (AddedAt edits k id ∨ k = edits.length ∧ ¬ (edited edits).contains id) := by
  have front {n : Nat} (h : n ≤ edits.length) : (edits ++ [e]).take n = edits.take n :=
    List.take_append_of_le_length h
  have whole : (edits ++ [e]).take (edits.length + 1) = edits ++ [e] := by
    rw [List.take_of_length_le]
    simp
  unfold AddedAt
  rw [List.length_append, List.length_singleton]
  constructor
  · rintro ⟨early, missing, since⟩
    have now := since (edits.length + 1) early (Nat.le_refl _)
    rw [whole, edited_append] at now
    refine ⟨now, ?_⟩
    rcases Nat.lt_succ_iff_lt_or_eq.1 early with before | rfl
    · rw [front before.le] at missing
      refine .inl ⟨before, missing, fun n later inside => ?_⟩
      rw [← front inside]
      exact since n later (by omega)
    · rw [front (Nat.le_refl _), List.take_length] at missing
      exact .inr ⟨rfl, missing⟩
  · rintro ⟨now, ⟨before, missing, since⟩ | ⟨rfl, missing⟩⟩
    · refine ⟨by omega, by rwa [front before.le], fun n later inside => ?_⟩
      rcases Nat.le_succ_iff.1 inside with within | rfl
      · rw [front within]
        exact since n later within
      · rwa [whole, edited_append]
    · refine ⟨by omega, by rwa [front (Nat.le_refl _), List.take_length], fun n later inside => ?_⟩
      obtain rfl : n = edits.length + 1 := by omega
      rwa [whole, edited_append]

theorem exists_addedAt (there : (edited edits).contains id) : ∃ k, AddedAt edits k id := by
  induction edits using List.reverseRecOn with
  | nil => simp [edited, LocationTree.contains, Table.contains] at there
  | append_singleton edits e ih =>
    rw [edited_append] at there
    by_cases old : (edited edits).contains id
    · obtain ⟨k, added⟩ := ih old
      exact ⟨k, addedAt_append.2 ⟨there, .inl added⟩⟩
    · exact ⟨edits.length, addedAt_append.2 ⟨there, .inr ⟨rfl, old⟩⟩⟩

theorem order_edit (t : LocationTree) (e : Edit) :
    (t.edit e).order <+ t.order ∨
      ∃ id, ¬ t.contains id ∧ (t.edit e).order = t.order ++ [id] := by
  cases e with
  | add x parent =>
    simp only [edit, add]
    split
    next => exact .inl (List.Sublist.refl _)
    next fresh =>
      have fresh : ¬ t.contains x.id := fresh
      cases parent with
      | none => exact .inr ⟨x.id, fresh, rfl⟩
      | some p =>
        simp only [Option.map_some]
        split
        next => exact .inr ⟨x.id, fresh, rfl⟩
        next => exact .inl (List.Sublist.refl _)
  | remove x => exact .inl List.filter_sublist
  | clear => exact .inl (List.nil_sublist _)

theorem WellFormed.before_edit (fine : t.WellFormed) (e : Edit) :
    Before (t.edit e).order i j ↔ (t.edit e).contains i ∧ (t.edit e).contains j ∧
      (Before t.order i j ∨ t.contains i ∧ ¬ t.contains j) := by
  have fine' := fine.edit e
  simp only [← fine.mem_order, ← fine'.mem_order]
  constructor
  · intro before
    refine ⟨before.left_mem, before.right_mem, ?_⟩
    rcases order_edit t e with part | ⟨id, fresh, order⟩
    · exact .inl (before.of_sublist part)
    · rw [order, Before.append_singleton_iff] at before
      rcases before with old | ⟨mem, rfl⟩
      · exact .inl old
      · exact .inr ⟨mem, fun known => fresh (fine.mem_order.1 known)⟩
  · rintro ⟨hereI, hereJ, before | ⟨old, new⟩⟩
    · rcases Before.total hereI hereJ (before.ne fine.distinct) with same | turned
      · exact same
      · rcases order_edit t e with part | ⟨id, fresh, order⟩
        · exact absurd (turned.of_sublist part) (before.asymm fine.distinct)
        · rw [order]
          exact before.of_sublist (List.sublist_append_left _ _)
    · rcases order_edit t e with part | ⟨id, fresh, order⟩
      · exact absurd (part.subset hereJ) new
      · rw [order] at hereJ ⊢
        obtain rfl : j = id := by simpa [new] using hereJ
        exact .last old j

theorem addedBefore_iff : AddedBefore edits i j ↔ Before (edited edits).order i j := by
  induction edits using List.reverseRecOn with
  | nil => simp [AddedBefore, AddedAt, edited, Before]
  | append_singleton edits e ih =>
    rw [edited_append, (WellFormed.edited edits).before_edit e, ← ih]
    constructor
    · rintro ⟨m, n, less, addedI, addedJ⟩
      obtain ⟨hereI, addedI⟩ := addedAt_append.1 addedI
      obtain ⟨hereJ, addedJ⟩ := addedAt_append.1 addedJ
      refine ⟨hereI, hereJ, ?_⟩
      rcases addedI with oldI | ⟨rfl, newI⟩ <;> rcases addedJ with oldJ | ⟨rfl, newJ⟩
      · exact .inl ⟨m, n, less, oldI, oldJ⟩
      · exact .inr ⟨oldI.contains, newJ⟩
      · exact absurd oldJ.1 (Nat.lt_asymm less)
      · exact absurd less (Nat.lt_irrefl _)
    · rintro ⟨hereI, hereJ, ⟨m, n, less, oldI, oldJ⟩ | ⟨oldI, newJ⟩⟩
      · exact ⟨m, n, less, addedAt_append.2 ⟨hereI, .inl oldI⟩, addedAt_append.2 ⟨hereJ, .inl oldJ⟩⟩
      · obtain ⟨m, added⟩ := exists_addedAt oldI
        exact ⟨m, edits.length, added.1, addedAt_append.2 ⟨hereI, .inl added⟩,
          addedAt_append.2 ⟨hereJ, .inr ⟨rfl, newJ⟩⟩⟩

end Time

section Grouping

variable {seen : List InstanceId} {classes : List Collision} {path : String} {c d : Collision}

structure Classified (t : LocationTree) (seen : List InstanceId) (classes : List Collision) :
    Prop where
  members : ∀ c ∈ classes, c.instances = seen.filter fun i => t.path? i == some c.path
  inhabited : ∀ c ∈ classes, c.instances ≠ []
  covered : ∀ i ∈ seen, ∀ path, t.path? i = some path → ∃ c ∈ classes, c.path = path
  distinct : (classes.map Collision.path).Nodup
  ordered : classes.filterMap (fun c => c.instances.head?) <+ seen

def Collision.take (path : String) (id : InstanceId) (c : Collision) : Collision :=
  if c.path == path then { c with instances := c.instances ++ [id] } else c

theorem Collision.path_take (path : String) (id : InstanceId) (c : Collision) :
    (c.take path id).path = c.path := by
  unfold take
  split <;> rfl

theorem Collision.head?_take (inhabited : c.instances ≠ []) :
    (c.take path id).instances.head? = c.instances.head? := by
  unfold take
  split
  · exact List.head?_append_of_ne_nil _ inhabited
  · rfl

namespace Classified

variable (classified : t.Classified seen classes)

include classified

theorem members_take (known : t.path? id = some path) (mem : c ∈ classes) :
    (c.take path id).instances = (seen ++ [id]).filter fun i => t.path? i == some c.path := by
  rw [List.filter_append, ← classified.members c mem]
  by_cases same : c.path = path
  · simp [Collision.take, known, same]
  · simp [Collision.take, known, same, Ne.symm same]

theorem take (known : t.path? id = some path) (listed : ∃ c ∈ classes, c.path = path) :
    t.Classified (seen ++ [id]) (classes.map (Collision.take path id)) where
  members c mem := by
    obtain ⟨d, listed, rfl⟩ := List.mem_map.1 mem
    rw [Collision.path_take, classified.members_take known listed]
  inhabited c mem := by
    obtain ⟨d, listed, rfl⟩ := List.mem_map.1 mem
    unfold Collision.take
    split
    · simp
    · exact classified.inhabited d listed
  covered i mem p has := by
    suffices old : ∃ c ∈ classes, c.path = p by
      obtain ⟨c, mem, rfl⟩ := old
      exact ⟨_, List.mem_map_of_mem mem, Collision.path_take path id c⟩
    rcases List.mem_append.1 mem with old | new
    · exact classified.covered i old p has
    · obtain rfl := List.mem_singleton.1 new
      obtain rfl : path = p := Option.some.inj (known.symm.trans has)
      exact listed
  distinct := by
    have same : Collision.path ∘ Collision.take path id = Collision.path :=
      funext (Collision.path_take path id)
    rw [List.map_map, same]
    exact classified.distinct
  ordered := by
    have same : (classes.map (Collision.take path id)).filterMap (fun c => c.instances.head?) =
        classes.filterMap fun c => c.instances.head? := by
      rw [List.filterMap_map]
      exact List.filterMap_congr fun c mem => Collision.head?_take (classified.inhabited c mem)
    rw [same]
    exact classified.ordered.trans (List.sublist_append_left seen [id])

theorem start (known : t.path? id = some path) (new : ∀ c ∈ classes, c.path ≠ path) :
    t.Classified (seen ++ [id]) (classes ++ [⟨path, [id]⟩]) where
  members c mem := by
    rcases List.mem_append.1 mem with old | last
    · rw [List.filter_append, ← classified.members c old]
      simp [known, Ne.symm (new c old)]
    · obtain rfl := List.mem_singleton.1 last
      have none : seen.filter (fun i => t.path? i == some path) = [] := by
        refine List.filter_eq_nil_iff.2 fun i mem has => ?_
        obtain ⟨c, listed, same⟩ := classified.covered i mem path (by simpa using has)
        exact new c listed same
      rw [List.filter_append, none]
      simp [known]
  inhabited c mem := by
    rcases List.mem_append.1 mem with old | last
    · exact classified.inhabited c old
    · rw [List.mem_singleton.1 last]
      exact List.cons_ne_nil _ _
  covered i mem p has := by
    rcases List.mem_append.1 mem with old | last
    · obtain ⟨c, listed, same⟩ := classified.covered i old p has
      exact ⟨c, List.mem_append_left _ listed, same⟩
    · obtain rfl := List.mem_singleton.1 last
      obtain rfl : path = p := Option.some.inj (known.symm.trans has)
      exact ⟨_, List.mem_append_right _ (List.mem_singleton_self _), rfl⟩
  distinct := by
    rw [List.map_append, List.map_singleton, List.nodup_append]
    refine ⟨classified.distinct, List.nodup_singleton _, fun p mem q last => ?_⟩
    obtain ⟨c, listed, rfl⟩ := List.mem_map.1 mem
    rw [List.mem_singleton.1 last]
    exact new c listed
  ordered := by
    rw [List.filterMap_append]
    exact classified.ordered.append (List.Sublist.refl _)

theorem classify (known : t.path? id = some path) :
    t.Classified (seen ++ [id]) (LocationTree.classify classes path id) := by
  unfold LocationTree.classify
  split
  next listed =>
    refine classified.take known ?_
    simpa using listed
  next unlisted =>
    refine classified.start known ?_
    simpa using unlisted

theorem skip (unknown : t.path? id = none) : t.Classified (seen ++ [id]) classes where
  members c mem := by simp [classified.members c mem, unknown]
  inhabited := classified.inhabited
  covered i mem p has := by
    rcases List.mem_append.1 mem with old | last
    · exact classified.covered i old p has
    · rw [List.mem_singleton.1 last, unknown] at has
      cases has
  distinct := classified.distinct
  ordered := classified.ordered.trans (List.sublist_append_left seen [id])

theorem foldl {f : List Collision → InstanceId → List Collision}
    (step : ∀ {seen classes} id, t.Classified seen classes →
      t.Classified (seen ++ [id]) (f classes id)) (rest : List InstanceId) :
    t.Classified (seen ++ rest) (rest.foldl f classes) := by
  induction rest generalizing seen classes with
  | nil => simpa using classified
  | cons id rest ih =>
    rw [List.append_cons, List.foldl_cons]
    exact ih (step id classified)

end Classified

theorem classified_byPath (t : LocationTree) : t.Classified t.order t.byPath := by
  have empty : t.Classified [] [] := ⟨by simp, by simp, by simp, by simp, by simp⟩
  refine empty.foldl (fun id classified => ?_) t.order
  split
  next path known => exact classified.classify known
  next unknown => exact classified.skip unknown

end Grouping

section Detection

variable {c d : Collision}

def SamePath (t : LocationTree) (i j : InstanceId) : Prop :=
  t.contains i ∧ t.contains j ∧ t.path? i = t.path? j

theorem eq_of_path (memC : c ∈ t.byPath) (memD : d ∈ t.byPath) (same : c.path = d.path) : c = d :=
  List.inj_on_of_nodup_map t.classified_byPath.distinct memC memD same

namespace WellFormed

variable (fine : t.WellFormed)

include fine

theorem exists_path (there : t.contains id) : ∃ path, t.path? id = some path := by
  obtain ⟨stack, found⟩ := Option.isSome_iff_exists.1 ((fine.stack?_isSome id).trans there)
  exact ⟨_, by rw [path?, found, Option.map_some]⟩

theorem mem_instances (mem : c ∈ t.byPath) :
    i ∈ c.instances ↔ t.contains i ∧ t.path? i = some c.path := by
  rw [t.classified_byPath.members c mem, List.mem_filter, fine.mem_order, beq_iff_eq]

theorem instances_eq_class (mem : c ∈ t.byPath) (member : i ∈ c.instances) :
    {j | j ∈ c.instances} = {j | t.SamePath i j} := by
  obtain ⟨there, path⟩ := (fine.mem_instances mem).1 member
  ext j
  simp only [Set.mem_ofPred_eq, fine.mem_instances mem, SamePath, there, path, true_and, eq_comm]

theorem exists_class (there : t.contains i) : ∃ c ∈ t.byPath, i ∈ c.instances := by
  obtain ⟨path, has⟩ := fine.exists_path there
  obtain ⟨c, mem, rfl⟩ := t.classified_byPath.covered i (fine.mem_order.2 there) path has
  exact ⟨c, mem, (fine.mem_instances mem).2 ⟨there, has⟩⟩

theorem mem_collisions :
    c ∈ t.collisions ↔ c ∈ t.byPath ∧ {i | i ∈ c.instances}.Nontrivial := by
  rw [collisions, List.mem_filter, decide_eq_true_iff]
  refine and_congr_right fun mem => one_lt_length_iff_of_nodup ?_
  rw [t.classified_byPath.members c mem]
  exact fine.distinct.filter _

theorem exists_collision (apart : i ≠ j) (same : t.SamePath i j) :
    ∃ c ∈ t.collisions, i ∈ c.instances := by
  obtain ⟨c, mem, member⟩ := fine.exists_class same.1
  have both : {k | k ∈ c.instances} = _ := fine.instances_eq_class mem member
  have other : j ∈ c.instances := both.ge same
  exact ⟨c, fine.mem_collisions.2 ⟨mem, i, member, j, other, apart⟩, member⟩

theorem collisions_eq_nil_iff :
    t.collisions = [] ↔ Set.InjOn t.path? {id | t.contains id} := by
  constructor
  · intro none i hereI j hereJ same
    by_contra apart
    obtain ⟨c, mem, _⟩ := fine.exists_collision apart ⟨hereI, hereJ, same⟩
    simp [none] at mem
  · intro injective
    refine List.eq_nil_iff_forall_not_mem.2 fun c mem => ?_
    obtain ⟨mem, i, memI, j, memJ, apart⟩ := fine.mem_collisions.1 mem
    obtain ⟨hereI, pathI⟩ := (fine.mem_instances mem).1 memI
    obtain ⟨hereJ, pathJ⟩ := (fine.mem_instances mem).1 memJ
    exact apart (injective hereI hereJ (pathI.trans pathJ.symm))

end WellFormed

-- What is to be found in the tree that edits have made.
structure Detects (edits : List Edit) (found : List Collision) : Prop where
  -- The classes of the relation `SamePath` that have several members.
  classes : ∀ members : Set InstanceId, (∃ c ∈ found, {i | i ∈ c.instances} = members) ↔
    members.Nontrivial ∧
      ∃ i, (edited edits).contains i ∧ members = {j | (edited edits).SamePath i j}
  once : ∀ i j, i ≠ j → (edited edits).SamePath i j → ∃! c, c ∈ found ∧ i ∈ c.instances
  path : ∀ c ∈ found, ∀ i ∈ c.instances, (edited edits).path? i = some c.path
  distinct : (found.map Collision.path).Nodup
  members : ∀ c ∈ found, c.instances.Pairwise (AddedBefore edits)
  ordered : found.Pairwise fun c d =>
    ∀ i ∈ c.instances.head?, ∀ j ∈ d.instances.head?, AddedBefore edits i j

theorem pairwise_addedBefore {l : List InstanceId} (part : l <+ (edited edits).order) :
    l.Pairwise (AddedBefore edits) := by
  refine List.Pairwise.sublist part (List.pairwise_iff_forall_sublist.2 fun before => ?_)
  exact addedBefore_iff.2 before

theorem detects_collisions (edits : List Edit) : Detects edits (edited edits).collisions := by
  have fine := WellFormed.edited edits
  have grouped := (edited edits).classified_byPath
  constructor
  case classes =>
    intro members
    constructor
    · rintro ⟨c, mem, rfl⟩
      obtain ⟨mem, several⟩ := fine.mem_collisions.1 mem
      obtain ⟨i, member⟩ := several.nonempty
      exact ⟨several, i, ((fine.mem_instances mem).1 member).1,
        fine.instances_eq_class mem member⟩
    · rintro ⟨several, i, there, rfl⟩
      obtain ⟨c, mem, member⟩ := fine.exists_class there
      have all := fine.instances_eq_class mem member
      exact ⟨c, fine.mem_collisions.2 ⟨mem, all ▸ several⟩, all⟩
  case once =>
    intro i j apart same
    obtain ⟨c, mem, member⟩ := fine.exists_collision apart same
    refine ⟨c, ⟨mem, member⟩, fun d ⟨memD, memberD⟩ => ?_⟩
    have memC := (fine.mem_collisions.1 mem).1
    have memD := (fine.mem_collisions.1 memD).1
    have pathC := ((fine.mem_instances memC).1 member).2
    have pathD := ((fine.mem_instances memD).1 memberD).2
    exact eq_of_path memD memC (Option.some.inj (pathD.symm.trans pathC))
  case path =>
    intro c mem i member
    exact ((fine.mem_instances (fine.mem_collisions.1 mem).1).1 member).2
  case distinct => exact grouped.distinct.sublist (List.filter_sublist.map _)
  case members =>
    intro c mem
    apply pairwise_addedBefore
    rw [grouped.members c (fine.mem_collisions.1 mem).1]
    exact List.filter_sublist
  case ordered =>
    have heads := pairwise_addedBefore grouped.ordered
    exact (List.pairwise_filterMap.1 heads).filter _

end Detection

end LocationTree

namespace Session

theorem treeStep_validate {s : Session} {name : String} {id : Nat} {t : ReportingTree}
    (named : s.names.trees.find? name = some id) (kept : s.trees[id]? = some t)
    (there : t.console < s.consoles.size) :
    (treeStep (.validate name)).run s =
      (.ok (.collisions (t.tree.collisions.map fun c => (c.path, c.instances.map s.labelOf))),
        s.told t.console (t.tree.collisions.map fun c => .error c.message)) := by
  have found : (knownTree name).run s = (.ok (id, t), s) := by
    refine (Step.run_bind (known_run named)).trans ?_
    have stored : s.trees.getD id default = t := by simp [Array.getD_eq_getD_getElem?, kept]
    rw [← stored]
    rfl
  have tells := forM_report (fun c : LocationTree.Collision => Entry.error c.message) there
    t.tree.collisions
  refine (Step.run_bind found).trans ?_
  dsimp only
  rw [Step.run_bind tells]
  rfl

theorem told_memory {s : Session} {console : ConsoleId} {label : String} {old : List Entry}
    (kept : s.consoles[console]? = some (.memory label old)) (messages : List String) :
    (s.told console (messages.map Entry.error)).consoles[console]? =
      some (.memory label (old ++ messages.map Entry.error)) := by
  obtain ⟨there, _⟩ := Array.getElem?_eq_some_iff.1 kept
  have stored : s.consoles.getD console default = .memory label old := by
    simp [Array.getD_eq_getD_getElem?, kept]
  rw [told, stored, Console.writeAll_errors]
  simp [Array.set!_eq_setIfInBounds, there]

end Session

namespace LocationTree

def reports (found : List Collision) : List Entry := found.map fun c => .error c.message

/-- In a tree that edits have made, every occurrence has a path, and the collisions are the classes
of those that share one (`Detects`); there are none exactly if the paths tell the occurrences apart.
Validation answers with them and tells the console of the tree one error for each, in their order,
and nothing else. -/
theorem edits_collisions (edits : List Edit) :
    (∀ id, (edited edits).contains id → ∃ path, (edited edits).path? id = some path) ∧
      Detects edits (edited edits).collisions ∧
      ((edited edits).collisions = [] ↔
        Set.InjOn (edited edits).path? {id | (edited edits).contains id}) ∧
      ∀ (s : Session) (name : String) (id : Nat) (console : ConsoleId),
        s.names.trees.find? name = some id → s.trees[id]? = some ⟨edited edits, console⟩ →
        console < s.consoles.size →
          (Session.treeStep (.validate name)).run s =
            (.ok (.collisions ((edited edits).collisions.map fun c =>
              (c.path, c.instances.map s.labelOf))),
              s.told console (reports (edited edits).collisions)) ∧
          ∀ label old, s.consoles[console]? = some (.memory label old) →
            (s.told console (reports (edited edits).collisions)).consoles[console]? =
              some (.memory label (old ++ reports (edited edits).collisions)) := by
  have fine := WellFormed.edited edits
  refine ⟨fun _ => fine.exists_path, detects_collisions edits, fine.collisions_eq_nil_iff, ?_⟩
  intro s name id console named kept there
  refine ⟨Session.treeStep_validate named kept there, fun label old kept => ?_⟩
  have errors : reports (edited edits).collisions =
      ((edited edits).collisions.map Collision.message).map Entry.error := by simp [reports]
  rw [errors]
  exact Session.told_memory kept _

section Sample

def sampleEdits : List Edit :=
  [.add ⟨0, .content "hero"⟩ none, .add ⟨1, .content "menu"⟩ none,
    .add ⟨2, .content "hero"⟩ none]

def sampleSession : Session where
  consoles := #[.memory "c" []]
  trees := #[⟨edited sampleEdits, 0⟩]
  names := { trees := .ofList [("t", 0)] }

theorem edits_collisions_sample :
    (∃! c, c ∈ (edited sampleEdits).collisions ∧ 0 ∈ c.instances) ∧
      ((Session.treeStep (.validate "t")).run sampleSession).2.consoles[0]? =
        some (.memory "c" (reports (edited sampleEdits).collisions)) := by
  obtain ⟨_, detects, _, told⟩ := edits_collisions sampleEdits
  have path {id : InstanceId}
      (found : (edited sampleEdits).find? id = some ⟨⟨id, .content "hero"⟩, none⟩) :
      (edited sampleEdits).path? id = some "ContentContext:hero" := by
    rw [path?, (WellFormed.edited sampleEdits).stack?_of_find? found]
    rfl
  have same : (edited sampleEdits).SamePath 0 2 :=
    ⟨by decide, by decide, (path rfl).trans (path rfl).symm⟩
  refine ⟨detects.once 0 2 (by decide) same, ?_⟩
  obtain ⟨run, memory⟩ := told sampleSession "t" 0 0 (by decide) rfl (by decide)
  rw [run]
  exact memory "c" [] rfl

end Sample

end LocationTree

end EventTracking
