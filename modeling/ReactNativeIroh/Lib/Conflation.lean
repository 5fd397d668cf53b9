import Mathlib.Data.List.Basic

/-!
# Conflation

A producer makes values, and a consumer that may be slower is delivered some of them.  At most
one value is kept for it.  A value that is made while another one is kept takes its place.

`Conflates` says that nothing but superseded values is missing.  The values delivered come from
those produced, in order.  The newest one is kept, or it was the last to be delivered.
-/

namespace Conflation

variable {α : Type*} {produced delivered : List α} {kept : Option α}

/-- The values produced, those delivered, and the one that is kept. -/
def Conflates (produced delivered : List α) : Option α → Prop
  | some v => ∃ earlier, produced = earlier ++ [v] ∧ List.Sublist delivered earlier
  | none => (produced = [] ∧ delivered = []) ∨ ∃ earlier before v, produced = earlier ++ [v] ∧
      delivered = before ++ [v] ∧ List.Sublist before earlier

namespace Conflates

theorem nil : Conflates ([] : List α) [] none := .inl ⟨rfl, rfl⟩

theorem sublist (h : Conflates produced delivered kept) : delivered.Sublist produced := by
  cases kept with
  | some v =>
      obtain ⟨earlier, rfl, hs⟩ := h
      exact hs.trans (List.sublist_append_left _ _)
  | none =>
      obtain ⟨rfl, rfl⟩ | ⟨earlier, before, v, rfl, rfl, hs⟩ := h
      · exact List.Sublist.refl _
      · exact hs.append_right [v]

theorem kept_sublist (h : Conflates produced delivered kept) :
    (delivered ++ kept.toList).Sublist produced := by
  cases kept with
  | some v =>
      obtain ⟨earlier, rfl, hs⟩ := h
      exact hs.append_right [v]
  | none =>
      rw [Option.toList_none, List.append_nil]
      exact h.sublist

/-- A new value is kept, in the place of an older one. -/
theorem keep (h : Conflates produced delivered kept) (v : α) :
    Conflates (produced ++ [v]) delivered (some v) :=
  ⟨produced, rfl, h.sublist⟩

/-- A new value is delivered at once, and an older one is dropped. -/
theorem pass (h : Conflates produced delivered kept) (v : α) :
    Conflates (produced ++ [v]) (delivered ++ [v]) none :=
  .inr ⟨produced, delivered, v, rfl, rfl, h.sublist⟩

/-- The value that was kept is delivered. -/
theorem take {v : α} (h : Conflates produced delivered (some v)) :
    Conflates produced (delivered ++ [v]) none := by
  obtain ⟨earlier, rfl, hs⟩ := h
  exact .inr ⟨earlier, delivered, v, rfl, rfl, hs⟩

/-- The value kept is the newest. -/
theorem newest {v : α} (h : Conflates produced delivered (some v)) :
    produced.getLast? = some v := by
  obtain ⟨earlier, rfl, -⟩ := h
  exact List.getLast?_concat

/-- Where nothing is kept, the newest value was delivered last. -/
theorem caughtUp (h : Conflates produced delivered none) :
    delivered.getLast? = produced.getLast? := by
  obtain ⟨rfl, rfl⟩ | ⟨earlier, before, v, rfl, rfl, -⟩ := h
  · rfl
  · rw [List.getLast?_concat, List.getLast?_concat]

/-- Nothing was produced where nothing is delivered or kept. -/
theorem produced_eq_nil (h : Conflates produced [] none) : produced = [] := by
  obtain ⟨hp, -⟩ | ⟨earlier, before, v, -, hd, -⟩ := h
  · exact hp
  · exact absurd hd.symm (List.append_ne_nil_of_right_ne_nil _ (List.cons_ne_nil _ _))

end Conflates

end Conflation
