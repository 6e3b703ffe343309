import Mathlib.Data.List.Basic

set_option autoImplicit false

namespace EventTracking

variable {L : Type} {busy : L → Bool} {roles : List L} {i : Nat} {l l' : L}

def Sole (busy : L → Bool) (roles : List L) (l : L) : Prop := roles.filter busy = [l].filter busy

namespace Sole

theorem eq_of_busy (sole : Sole busy roles l) (here : roles[i]? = some l') (h : busy l' = true) :
    l' = l := by
  have found : l' ∈ roles.filter busy := List.mem_filter.2 ⟨List.mem_of_getElem? here, h⟩
  rw [sole] at found
  exact List.mem_singleton.1 (List.mem_filter.1 found).1

theorem split (here : roles[i]? = some l) (l' : L) :
    ∃ before after, roles = before ++ l :: after ∧ roles.set i l' = before ++ l' :: after := by
  obtain ⟨inside, rfl⟩ := List.getElem?_eq_some_iff.1 here
  obtain ⟨before, after, whole, _, changed⟩ := List.exists_of_set inside
  exact ⟨before, after, whole, changed⟩

theorem set_same (here : roles[i]? = some l) : roles.set i l = roles := by
  obtain ⟨inside, rfl⟩ := List.getElem?_eq_some_iff.1 here
  exact List.set_getElem_self inside

theorem none_busy (sole : Sole busy roles l) (h : busy l = false) : roles.filter busy = [] := by
  simpa [Sole, h] using sole

theorem change (sole : Sole busy roles l) (h : busy l = true) (here : roles[i]? = some l) :
    Sole busy (roles.set i l') l' := by
  obtain ⟨before, after, whole, changed⟩ := split here l'
  -- One busy role is in the middle, so none is left for either side.
  have alone : before.filter busy = [] ∧ after.filter busy = [] := by
    have length := congrArg List.length sole
    rw [whole] at length
    simp only [List.filter_append, List.filter_cons, h, if_true, List.length_append,
      List.length_cons, List.filter_nil, List.length_nil] at length
    exact ⟨List.eq_nil_of_length_eq_zero (by omega), List.eq_nil_of_length_eq_zero (by omega)⟩
  simp [Sole, changed, List.filter_append, List.filter_cons, alone]

theorem take (sole : Sole busy roles l) (h : busy l = false) {l₀ : L} (here : roles[i]? = some l₀) :
    Sole busy (roles.set i l') l' := by
  obtain ⟨before, after, whole, changed⟩ := split here l'
  have idle := List.filter_eq_nil_iff.1 (sole.none_busy h)
  have front : before.filter busy = [] :=
    List.filter_eq_nil_iff.2 fun a ha => idle a (by simp [whole, ha])
  have back : after.filter busy = [] :=
    List.filter_eq_nil_iff.2 fun a ha => idle a (by simp [whole, ha])
  simp [Sole, changed, List.filter_append, List.filter_cons, front, back]

theorem elsewhere (sole : Sole busy roles l) {l₀ : L} (here : roles[i]? = some l₀)
    (h : busy l₀ = false) (h' : busy l' = false) : Sole busy (roles.set i l') l := by
  obtain ⟨before, after, whole, changed⟩ := split here l'
  rw [Sole, whole] at sole
  rw [Sole, changed, ← sole]
  simp [List.filter_append, h, h']

theorem append (sole : Sole busy roles l) (h : busy l' = false) : Sole busy (roles ++ [l']) l := by
  simpa [Sole, List.filter_append, h] using sole

theorem append_take (sole : Sole busy roles l) (h : busy l = false) :
    Sole busy (roles ++ [l']) l' := by
  simp [Sole, List.filter_append, sole.none_busy h]

end Sole

end EventTracking
