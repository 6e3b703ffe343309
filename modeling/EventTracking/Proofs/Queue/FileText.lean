import EventTracking.Proofs.Event.Finalized
import EventTracking.Queue.Store

set_option autoImplicit false

namespace EventTracking

theorem Json.IsLegible.arr {items : List Json} (each : ∀ v ∈ items, (Json.arr [v]).IsLegible) :
    (Json.arr items).IsLegible := by
  constructor
  · intro x inside
    obtain ⟨v, hv, inside⟩ := Json.mem_itemsParts.1 (by simpa [Json.parts] using inside)
    exact (each v hv).floats x (by simp [Json.parts, Json.itemsParts, inside])
  · induction items with
    | nil => decide
    | cons v items ih =>
      have first := (each v (by simp)).flat
      have others := ih fun w hw => each w (by simp [hw])
      simp only [Json.height, Json.itemsHeight] at first others ⊢
      omega

structure Event.IsStorable (e : Event) : Prop where
  made : e.Made
  noClash : e.properties.clash? UntrackedEvent.declaredKeys = none
  legible : (Json.arr [e.raw]).IsLegible

namespace Store

theorem isBlank_fileText (events : List Event) : Text.isBlank (fileText events) = false := by
  have opened : (fileText events).toList =
      '[' :: ((Json.itemsText (events.map Event.raw)) ++ "]").toList := by
    rw [fileText, Event.listText_eq, Json.text]
    simp
  rw [Text.isBlank, opened]
  rfl

theorem load_fileText {events : List Event} (all : ∀ e ∈ events, e.IsStorable) (path : String) :
    load path (.ok (fileText events)) = .ok events := by
  have legible : (Json.arr (events.map Event.raw)).IsLegible := by
    apply Json.IsLegible.arr
    intro v hv
    obtain ⟨e, he, rfl⟩ := List.mem_map.1 hv
    exact (all e he).legible
  have read := Event.listOfText?_listText (fun e he => ⟨(all e he).made.isSound, (all e he).noClash⟩)
    legible
  rw [load, isBlank_fileText, fileText, read]
  rfl

theorem mem_of_mem_apply {edit : Edit} {events : List Event} {e : Event}
    (h : e ∈ edit.apply events) : e ∈ events ∨ ∃ new, edit = .append new ∧ e ∈ new := by
  cases edit with
  | append new => exact (List.mem_append.1 h).imp id fun inside => ⟨new, rfl, inside⟩
  | remove ids => exact .inl (List.mem_filter.1 h).1
  | clear => cases h

end Store

end EventTracking
