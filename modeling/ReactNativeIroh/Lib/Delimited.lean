import Mathlib.Data.List.Basic

/-!
# Self-delimiting codes

A code in which the word of a message can be told from what follows it.  A sequence
of symbols is then the concatenation of code words in at most one way, and it has one
longest front that is such a concatenation.  `Parses` names that front: the symbols
are the words of the messages and a rest, and no word starts the rest.
-/

namespace Delimited

/-- Code words for the valid messages, none of which is a front of another. -/
structure Code (α β : Type*) where
  Valid : α → Prop
  encode : α → List β
  encode_ne_nil : ∀ a, Valid a → encode a ≠ []
  cancel : ∀ {a b : α} {r r' : List β}, Valid a → Valid b →
    encode a ++ r = encode b ++ r' → a = b ∧ r = r'

namespace Code

variable {α β : Type*} (C : Code α β)

def encodeAll (messages : List α) : List β := messages.flatMap C.encode

/-- No code word starts the symbols. -/
def Stuck (rest : List β) : Prop := ∀ a r, C.Valid a → rest ≠ C.encode a ++ r

/-- The messages are all that can be read, and the rest is what remains. -/
structure Parses (symbols : List β) (messages : List α) (rest : List β) : Prop where
  valid : ∀ a ∈ messages, C.Valid a
  split : symbols = C.encodeAll messages ++ rest
  stuck : C.Stuck rest

variable {C} {symbols rest rest' : List β} {messages messages' : List α}

theorem stuck_nil : C.Stuck [] := by
  intro a r ha h
  exact C.encode_ne_nil a ha (List.append_eq_nil_iff.mp h.symm).1

namespace Parses

theorem nil (h : C.Stuck symbols) : C.Parses symbols [] symbols := ⟨nofun, rfl, h⟩

theorem cons {a : α} (ha : C.Valid a) (h : C.Parses symbols messages rest) :
    C.Parses (C.encode a ++ symbols) (a :: messages) rest where
  valid b hb := by
    rcases List.mem_cons.mp hb with rfl | hb
    · exact ha
    · exact h.valid b hb
  split := by
    rw [h.split, encodeAll, encodeAll, List.flatMap_cons, List.append_assoc]
  stuck := h.stuck

/-- There is one way to read the symbols. -/
theorem unique (h : C.Parses symbols messages rest) (h' : C.Parses symbols messages' rest') :
    messages = messages' ∧ rest = rest' := by
  induction messages generalizing symbols messages' with
  | nil =>
      cases messages' with
      | nil => exact ⟨rfl, h.split.symm.trans h'.split⟩
      | cons b messages' =>
          have hrest : rest = C.encode b ++ (C.encodeAll messages' ++ rest') := by
            rw [← List.append_assoc]
            exact h.split.symm.trans h'.split
          exact absurd hrest (h.stuck b _ (h'.valid b List.mem_cons_self))
  | cons a messages ih =>
      have hsplit : symbols = C.encode a ++ (C.encodeAll messages ++ rest) := by
        rw [← List.append_assoc]
        exact h.split
      have ha := h.valid a List.mem_cons_self
      cases messages' with
      | nil => exact absurd (h'.split.symm.trans hsplit) (h'.stuck a _ ha)
      | cons b messages' =>
          have hsplit' : symbols = C.encode b ++ (C.encodeAll messages' ++ rest') := by
            rw [← List.append_assoc]
            exact h'.split
          obtain ⟨rfl, htail⟩ :=
            C.cancel ha (h'.valid b List.mem_cons_self) (hsplit.symm.trans hsplit')
          have htail₁ : C.Parses (C.encodeAll messages ++ rest) messages rest :=
            ⟨fun c hc => h.valid c (List.mem_cons_of_mem _ hc), rfl, h.stuck⟩
          have htail₂ : C.Parses (C.encodeAll messages ++ rest) messages' rest' :=
            ⟨fun c hc => h'.valid c (List.mem_cons_of_mem _ hc), htail, h'.stuck⟩
          obtain ⟨rfl, rfl⟩ := ih htail₁ htail₂
          exact ⟨rfl, rfl⟩

end Parses

/-- A concatenation of code words that starts another has its messages in front. -/
theorem prefix_of_encodeAll {ms : List α} (hm : ∀ a ∈ messages, C.Valid a)
    (hms : ∀ a ∈ ms, C.Valid a) (h : C.encodeAll messages ++ rest = C.encodeAll ms) :
    ∃ later, ms = messages ++ later ∧ rest = C.encodeAll later := by
  induction messages generalizing ms with
  | nil => exact ⟨ms, rfl, h⟩
  | cons a messages ih =>
      have ha := hm a List.mem_cons_self
      rw [encodeAll, List.flatMap_cons, List.append_assoc] at h
      cases ms with
      | nil => exact absurd (List.append_eq_nil_iff.mp h).1 (C.encode_ne_nil a ha)
      | cons b ms =>
          obtain ⟨rfl, htail⟩ := C.cancel ha (hms b List.mem_cons_self) h
          obtain ⟨later, rfl, hrest⟩ := ih (fun c hc => hm c (List.mem_cons_of_mem _ hc))
            (fun c hc => hms c (List.mem_cons_of_mem _ hc)) htail
          exact ⟨later, rfl, hrest⟩

/-- The words of valid messages are read in full. -/
theorem parses_encodeAll (h : ∀ a ∈ messages, C.Valid a) :
    C.Parses (C.encodeAll messages) messages [] :=
  ⟨h, (List.append_nil _).symm, stuck_nil⟩

/-- Nothing remains exactly of a concatenation of code words. -/
theorem Parses.rest_eq_nil_iff (h : C.Parses symbols messages rest) :
    rest = [] ↔ ∃ ms, (∀ a ∈ ms, C.Valid a) ∧ symbols = C.encodeAll ms := by
  constructor
  · rintro rfl
    exact ⟨messages, h.valid, h.split.trans (List.append_nil _)⟩
  · rintro ⟨ms, hms, rfl⟩
    exact (h.unique (parses_encodeAll hms)).2

end Code

end Delimited
