import Mathlib.Data.List.Nodup

set_option autoImplicit false

namespace EventTracking

open scoped List

variable {α β : Type} {l l' : List α} {a b : α}

def Before (l : List α) (a b : α) : Prop := [a, b] <+ l

instance [DecidableEq α] : Decidable (Before l a b) := inferInstanceAs (Decidable ([a, b] <+ l))

namespace Before

theorem of_sublist (before : Before l a b) (part : l <+ l') : Before l' a b :=
  List.Sublist.trans before part

theorem map (f : α → β) (before : Before l a b) : Before (l.map f) (f a) (f b) :=
  List.Sublist.map f before

theorem filter {p : α → Bool} (before : Before l a b) (ha : p a) (hb : p b) :
    Before (l.filter p) a b := by
  have kept : [a, b].filter p <+ l.filter p := List.Sublist.filter p before
  simpa [Before, ha, hb] using kept

theorem left_mem (before : Before l a b) : a ∈ l := List.Sublist.subset before (by simp)

theorem right_mem (before : Before l a b) : b ∈ l := List.Sublist.subset before (by simp)

theorem ne (before : Before l a b) (distinct : l.Nodup) : a ≠ b := by
  have apart : [a, b].Nodup := distinct.sublist before
  simpa using apart

theorem last (mem : a ∈ l) (b : α) : Before (l ++ [b]) a b := by
  have both : [a] ++ [b] <+ l ++ [b] := (List.singleton_sublist.2 mem).append_right [b]
  exact both

theorem append_singleton_iff {c : α} : Before (l ++ [c]) a b ↔ Before l a b ∨ a ∈ l ∧ b = c := by
  constructor
  · intro before
    obtain ⟨front, back, split, inside, end_⟩ := List.sublist_append_iff.1 before
    match front with
    | [] =>
      have short := end_.length_le
      rw [← List.nil_append back, ← split] at short
      simp at short
    | [x] =>
      obtain ⟨rfl, rfl⟩ : a = x ∧ [b] = back := by simpa using split
      exact .inr ⟨inside.subset (by simp), by simpa using end_⟩
    | x :: y :: rest =>
      obtain ⟨rfl, rfl, rfl, rfl⟩ : a = x ∧ b = y ∧ rest = [] ∧ back = [] := by simpa using split
      exact .inl inside
  · rintro (before | ⟨mem, rfl⟩)
    · exact before.of_sublist (List.sublist_append_left l [c])
    · exact last mem b

theorem total (ha : a ∈ l) (hb : b ∈ l) (ne : a ≠ b) : Before l a b ∨ Before l b a := by
  induction l with
  | nil => cases ha
  | cons c l ih =>
    rcases List.mem_cons.1 ha with rfl | inside
    · have later : b ∈ l := (List.mem_cons.1 hb).resolve_left ne.symm
      exact .inl ((List.singleton_sublist.2 later).cons_cons a)
    rcases List.mem_cons.1 hb with rfl | inside'
    · exact .inr ((List.singleton_sublist.2 inside).cons_cons b)
    · exact (ih inside inside').imp (List.Sublist.cons c) (List.Sublist.cons c)

theorem asymm (distinct : l.Nodup) (before : Before l a b) : ¬ Before l b a := by
  intro behind
  induction l with
  | nil => cases before
  | cons c l ih =>
    obtain ⟨fresh, distinct⟩ := List.nodup_cons.1 distinct
    cases before with
    | cons _ before =>
      cases behind with
      | cons _ behind => exact ih distinct before behind
      | cons_cons _ _ => exact fresh (right_mem before)
    | cons_cons _ rest =>
      cases behind with
      | cons _ behind => exact fresh (right_mem behind)
      | cons_cons _ _ => exact fresh (rest.subset (by simp))

theorem idxOf_lt [DecidableEq α] (before : Before l a b) (distinct : l.Nodup) :
    l.idxOf a < l.idxOf b := by
  induction l with
  | nil => cases before
  | cons c l ih =>
    obtain ⟨fresh, distinct⟩ := List.nodup_cons.1 distinct
    cases before with
    | cons _ before =>
      have inside := ih before distinct
      have notA : c ≠ a := fun same => fresh (same ▸ before.subset (by simp))
      have notB : c ≠ b := fun same => fresh (same ▸ right_mem before)
      simpa [List.idxOf_cons_ne _ notA, List.idxOf_cons_ne _ notB] using inside
    | cons_cons _ rest =>
      have notB : a ≠ b := fun same => fresh (same ▸ rest.subset (by simp))
      simp [List.idxOf_cons_ne _ notB]

theorem cons_sublist {rest : List α} (before : Before l a b) (distinct : l.Nodup)
    (part : b :: rest <+ l) : a :: b :: rest <+ l := by
  induction l with
  | nil => cases before
  | cons c l ih =>
    obtain ⟨fresh, distinct⟩ := List.nodup_cons.1 distinct
    cases before with
    | cons _ before =>
      cases part with
      | cons _ part => exact (ih before distinct part).cons c
      | cons_cons _ _ => exact absurd (right_mem before) fresh
    | cons_cons _ single =>
      cases part with
      | cons _ part => exact part.cons_cons a
      | cons_cons _ _ => exact absurd (single.subset (by simp)) fresh

theorem of_front (before : Before l a b) (distinct : l.Nodup) (front : l' <+: l) (ha : a ∈ l')
    (hb : b ∈ l') : Before l' a b := by
  rcases total ha hb (before.ne distinct) with inOrder | reversed
  · exact inOrder
  · exact absurd (reversed.of_sublist front.sublist) (asymm distinct before)

end Before

end EventTracking
