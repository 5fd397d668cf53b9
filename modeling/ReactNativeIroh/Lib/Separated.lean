import Mathlib.Data.List.Basic

/-!
# Separated lists

Lists of words are often written as one word, with a separator between the words, and
read back by cutting at the separator and dropping the empty pieces.  Reading returns
the pieces of every word, one word after the other.  So it returns the words
themselves exactly when each of them is one piece.
-/

namespace Separated

variable {α : Type*} {c : α} {l s : List α} {words : List (List α)}

/-- The words, with the separator between them. -/
def join (c : α) (words : List (List α)) : List α := [c].intercalate words

@[simp] theorem join_nil (c : α) : join c [] = [] := rfl

@[simp] theorem join_singleton (c : α) (l : List α) : join c [l] = l :=
  List.intercalate_singleton

@[simp] theorem join_cons_cons (c : α) (l l' : List α) (words : List (List α)) :
    join c (l :: l' :: words) = l ++ c :: join c (l' :: words) := by
  simp [join, List.intercalate_cons_cons]

variable [DecidableEq α]

/-- The non-empty pieces between the separators. -/
def segments (c : α) (l : List α) : List (List α) := (l.splitOn c).filter fun s => decide (s ≠ [])

/-- A word that is one piece. -/
structure Segment (c : α) (s : List α) : Prop where
  nonempty : s ≠ []
  separate : c ∉ s

@[simp] theorem segments_nil (c : α) : segments c [] = [] := by
  simp [segments, List.splitOn_nil]

/-- The pieces on both sides of a separator. -/
@[simp] theorem segments_append_cons (c : α) (l r : List α) :
    segments c (l ++ c :: r) = segments c l ++ segments c r := by
  rw [segments, List.splitOn_append_cons_self, List.filter_append]
  rfl

theorem segments_separate (h : c ∉ l) : segments c l = if l = [] then [] else [l] := by
  rw [segments, List.splitOn_eq_singleton h]
  by_cases hl : l = []
  · simp [hl]
  · simp [hl]

theorem Segment.segments (h : Segment c s) : segments c s = [s] := by
  rw [segments_separate h.separate, if_neg h.nonempty]

/-- What is between two separators has no separator, and is part of the list. -/
theorem mem_splitOn (h : s ∈ l.splitOn c) : c ∉ s ∧ s ⊆ l := by
  induction hn : l.length using Nat.strongRecOn generalizing l with
  | ind n ih =>
      by_cases hc : c ∈ l
      · obtain ⟨front, rest, rfl, hfront⟩ := List.eq_append_cons_of_mem hc
        rw [List.splitOn_append_cons_self_of_not_mem hfront] at h
        rcases List.mem_cons.mp h with rfl | h
        · exact ⟨hfront, List.subset_append_left _ _⟩
        · have hlt : rest.length < n := by
            simp only [List.length_append, List.length_cons] at hn
            omega
          obtain ⟨hs, hsub⟩ := ih rest.length hlt h rfl
          exact ⟨hs, fun a ha => by simp [hsub ha]⟩
      · rw [List.splitOn_eq_singleton hc, List.mem_singleton] at h
        exact ⟨h ▸ hc, h ▸ List.Subset.refl l⟩

/-- Every piece is one. -/
theorem segment_of_mem (h : s ∈ segments c l) : Segment c s := by
  obtain ⟨hmem, hne⟩ := List.mem_filter.mp h
  exact ⟨by simpa using hne, (mem_splitOn hmem).1⟩

/-- A piece is part of the list. -/
theorem subset_of_mem (h : s ∈ segments c l) : s ⊆ l :=
  (mem_splitOn (List.mem_filter.mp h).1).2

/-- The pieces of the joined words are the pieces of each. -/
theorem segments_join (c : α) (words : List (List α)) :
    segments c (join c words) = words.flatMap (segments c) := by
  induction words with
  | nil => simp
  | cons l rest ih =>
      cases rest with
      | nil => simp
      | cons l' rest =>
          rw [join_cons_cons, segments_append_cons, ih, ← List.flatMap_cons]

end Separated
