import EventTracking.Disk
import Mathlib.Data.List.Basic

set_option autoImplicit false

namespace EventTracking.Disk

variable {d d' : Disk} {place place' : Place} {path : String}

theorem node?_put_of_ne (d : Disk) (node : DiskNode) (other : place' ≠ place) :
    (d.put place node).node? place' = d.node? place' := by
  have elsewhere : (place == place') = false := by simpa using other.symm
  have left : (d.nodes.filter fun n => n.1 != place).find? (fun n => n.1 == place') =
      d.nodes.find? fun n => n.1 == place' := by
    rw [List.find?_filter]
    congr
    funext n
    by_cases here : n.1 = place'
    · simp [here, other]
    · simp [here]
  simp only [node?, put, List.find?_cons, elsewhere, left]

theorem enter_put (node : DiskNode) (free : d.node? place ≠ some .directory)
    {parts : List String} {start found : Place} (way : d.enter start parts = .ok found) :
    (d.put place node).enter start parts = .ok found := by
  induction parts generalizing start with
  | nil => exact way
  | cons part parts ih =>
    rw [enter] at way ⊢
    split at way
    · cases way
    · next short =>
      rw [if_neg short]
      split at way
      · cases way
      · cases way
      · next directory =>
        have other : step start part ≠ place := by
          intro same
          exact free (same ▸ directory)
        rw [node?_put_of_ne d node other, directory]
        exact ih way

theorem locate_put (node : DiskNode) (free : d.node? place ≠ some .directory)
    (way : d.locate path = .ok place') : (d.put place node).locate path = .ok place' := by
  unfold locate at way ⊢
  by_cases nul : path.contains '\x00'
  · simp [nul, bind, Except.bind] at way
  · simp only [nul, Bool.false_eq_true, if_false] at way ⊢
    cases directory : d.enter [] (path.splitOn "/").dropLast with
    | error fault =>
      rw [directory] at way
      cases way
    | ok found =>
      rw [directory] at way
      rw [enter_put node free directory]
      exact way

theorem withoutSlashes_of_file (file : path.endsWith "/" = false) : withoutSlashes path = path := by
  have last : path.toList.reverse.head? ≠ some '/' := by
    intro slash
    have ends : path.endsWith "/" = true := by
      rw [String.endsWith_eq_endsWith_toSlice, String.Slice.endsWith_string_iff]
      obtain ⟨front, whole⟩ := List.head?_eq_some_iff.1 slash
      refine ⟨front.reverse, ?_⟩
      simpa using (congrArg List.reverse whole).symm
    rw [ends] at file
    cases file
  have kept : path.toList.reverse.dropWhile (· == '/') = path.toList.reverse := by
    cases whole : path.toList.reverse with
    | nil => rfl
    | cons c front =>
      rw [whole] at last
      simp_all
  rw [withoutSlashes, kept]
  simp

theorem write_eq_ok {text : String} :
    d.write path text = .ok d' ↔ path.endsWith "/" = false ∧
      ∃ place, d.locate path = .ok place ∧ d.node? place ≠ some .directory ∧
        d' = d.put place (.file text.toUTF8) := by
  unfold write writeBytes
  by_cases file : path.endsWith "/" = false
  · rw [withoutSlashes_of_file file]
    cases d.locate path with
    | error fault => simp [bind, Except.bind]
    | ok place =>
      simp only [bind, Except.bind]
      split
      · next directory => simp [directory]
      · next free =>
        have other : d.node? place ≠ some .directory := free
        simp only [file, Bool.false_eq_true, if_false, pure, Except.pure, Except.ok.injEq, true_and,
          exists_eq_left', other, ne_eq, not_false_eq_true]
        exact eq_comm
  · have slash : path.endsWith "/" = true := by simpa using file
    simp only [slash, Bool.true_eq_false, false_and, iff_false, if_true, bind, Except.bind]
    split
    · simp
    · split <;> simp

theorem read_write {text : String} (written : d.write path text = .ok d') :
    d'.read path = .ok text := by
  obtain ⟨-, place, way, free, rfl⟩ := write_eq_ok.1 written
  have inside : place.all (· == "..") = false := by
    cases above : place.all (· == "..") with
    | false => rfl
    | true => exact absurd (by rw [node?, above, if_pos rfl]) free
  have there := node?_put d (.file text.toUTF8) inside
  have valid : String.fromUTF8? text.toUTF8 = some text := dif_pos text.isValidUTF8
  simp only [read, locate_put _ free way, bind, Except.bind, there, valid]
  rfl

end EventTracking.Disk
