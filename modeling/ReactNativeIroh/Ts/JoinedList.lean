import ReactNativeIroh.Lib.Separated
import ReactNativeIroh.Ts.JsString

/-!
# Newline-joined lists

A list of strings crosses the bridge as one string, with a newline between the elements.
The native side reads it up to the first NUL, cuts it at the newlines and drops the empty
segments.  So it reads the pieces of the elements: it reads the elements themselves
exactly when each of them is plain.
-/

namespace Iroh

open JsString

namespace JoinedList

/-- `list.join("\n")`. -/
def join (l : List JsString) : JsString := Separated.join (unit '\n') l

/-- `split_joined`. -/
def splitJoined (joined : String) : List String :=
  (Separated.segments '\n' joined.toList).map String.ofList

/-- What the native side reads of a list. -/
def received (l : List JsString) : List String := splitJoined (native (join l))

/-- What the native side would read of one element alone. -/
def pieces (s : JsString) : List String := splitJoined (native s)

/-- The pieces of the elements, up to the first NUL. -/
def allPieces : List JsString → List String
  | [] => []
  | s :: rest => pieces s ++ if unit nul ∈ s then [] else allPieces rest
termination_by structural l => l

/-- An element that is one piece and reads as itself. -/
structure Plain (s : JsString) : Prop where
  nonempty : s ≠ []
  separate : unit '\n' ∉ s
  unterminated : unit nul ∉ s
  wellFormed : WellFormed s

variable {s : JsString} {l : List JsString} {t : String}

theorem single_newline : Single '\n' := by decide

theorem splitJoined_append (front rest : List Char) :
    splitJoined (String.ofList (front ++ '\n' :: rest)) =
      splitJoined (String.ofList front) ++ splitJoined (String.ofList rest) := by
  simp only [splitJoined, String.toList_ofList, Separated.segments_append_cons, List.map_append]

/-- The native side reads the pieces of the elements. -/
theorem received_eq_allPieces (l : List JsString) : received l = allPieces l := by
  induction l with
  | nil => rfl
  | cons s rest ih =>
      cases rest with
      | nil =>
          have hsame : received [s] = pieces s := by
            rw [received, join, Separated.join_singleton]
            rfl
          rw [hsame, allPieces, allPieces, ite_self, List.append_nil]
      | cons s' rest =>
          rw [allPieces, ← ih, received, join, Separated.join_cons_cons]
          have happend := native_append_unit single_newline (by decide) s
            (Separated.join (unit '\n') (s' :: rest))
          by_cases hs : unit nul ∈ s
          · rw [if_pos hs] at happend
            rw [String.toList_inj.mp happend, if_pos hs, List.append_nil]
            rfl
          · rw [if_neg hs] at happend
            rw [if_neg hs, ← String.ofList_toList (s := native _), happend, splitJoined_append,
              String.ofList_toList, String.ofList_toList]
            rfl

/-- A plain element is read as itself. -/
theorem Plain.pieces (h : Plain s) : pieces s = [toText s] := by
  have hsegment : Separated.Segment '\n' (chars s) := by
    refine ⟨fun hnil => h.nonempty ?_, fun hmem => h.separate ((mem_chars single_newline).mp hmem)⟩
    rw [← h.wellFormed, toText, hnil]
    rfl
  rw [JoinedList.pieces, native_of_notMem h.unterminated, splitJoined, toText,
    String.toList_ofList, hsegment.segments]
  rfl

theorem allPieces_plain (h : ∀ s ∈ l, Plain s) : allPieces l = l.map toText := by
  induction l with
  | nil => rfl
  | cons s rest ih =>
      have hs := h s (List.mem_cons_self ..)
      rw [allPieces, if_neg hs.unterminated, hs.pieces,
        ih fun s' hs' => h s' (List.mem_cons_of_mem _ hs')]
      rfl

/-- What the native side reads is plain. -/
theorem plain_of_mem_received (h : t ∈ received l) : Plain (ofText t) := by
  obtain ⟨cs, hcs, rfl⟩ := List.mem_map.mp h
  obtain ⟨hne, hnewline⟩ := Separated.segment_of_mem hcs
  refine ⟨fun hnil => hne ?_, fun hmem => hnewline ?_, fun hmem => ?_, ?_⟩
  · simpa using congrArg String.toList (ofText_eq_nil.mp hnil)
  · simpa using (mem_ofText single_newline).mp hmem
  · have hnul := (mem_ofText single_nul).mp hmem
    rw [String.toList_ofList] at hnul
    exact nul_notMem_native (join l) (Separated.subset_of_mem hcs hnul)
  · rw [WellFormed, toText_ofText]

/-- The native side reads the elements themselves exactly when each of them is plain. -/
theorem received_exact_iff : (received l).map ofText = l ↔ ∀ s ∈ l, Plain s := by
  constructor
  · intro h s hs
    obtain ⟨t, ht, rfl⟩ := List.mem_map.mp (h.symm ▸ hs : s ∈ (received l).map ofText)
    exact plain_of_mem_received ht
  · intro h
    rw [received_eq_allPieces, allPieces_plain h, List.map_map]
    exact (List.map_congr_left fun s hs => (h s hs).wellFormed).trans (List.map_id l)

end JoinedList

end Iroh
