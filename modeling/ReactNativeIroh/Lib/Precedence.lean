import Mathlib.Data.List.Basic

/-!
# The order of events in a log

Two properties of a log that grows at its end.  `NoneAfter p q` says that an event of
one kind ends the events of another.  `Preceded q p` says that an event of one kind is
not seen before one of another.  For each there is a rule for appending events, so an
invariant about a log needs to look at the new events only.
-/

namespace Transition

universe u

variable {α : Type u} {p q : α → Prop} {l l' : List α}

/-- No event that satisfies `p` comes after one that satisfies `q`. -/
def NoneAfter (p q : α → Prop) (l : List α) : Prop := l.Pairwise fun a b => q a → ¬ p b

instance [DecidablePred p] [DecidablePred q] : Decidable (NoneAfter p q l) :=
  inferInstanceAs (Decidable (l.Pairwise fun a b => q a → ¬ p b))

namespace NoneAfter

@[simp] theorem nil : NoneAfter p q [] := List.Pairwise.nil

/-- Events that do not satisfy `p` may be appended. -/
theorem append (h : NoneAfter p q l) (hp : ∀ b ∈ l', ¬ p b) : NoneAfter p q (l ++ l') :=
  List.pairwise_append.mpr
    ⟨h, List.pairwise_of_forall_mem_list fun _ _ b hb _ => hp b hb, fun _ _ b hb _ => hp b hb⟩

/-- While no event satisfies `q`, events that do not satisfy it may be appended. -/
theorem appendBefore (h : NoneAfter p q l) (hq : ∀ a ∈ l, ¬ q a) (hq' : ∀ a ∈ l', ¬ q a) :
    NoneAfter p q (l ++ l') :=
  List.pairwise_append.mpr
    ⟨h, List.pairwise_of_forall_mem_list fun a ha _ _ hqa => absurd hqa (hq' a ha),
      fun a ha _ _ hqa => absurd hqa (hq a ha)⟩

end NoneAfter

/-- An event that satisfies `q` comes before the first that satisfies only `p`. -/
def Preceded (q p : α → Prop) : List α → Prop
  | [] => True
  | a :: l => q a ∨ ¬ p a ∧ Preceded q p l

namespace Preceded

instance decidable [DecidablePred q] [DecidablePred p] : (l : List α) → Decidable (Preceded q p l)
  | [] => .isTrue trivial
  | _ :: l =>
      have := decidable l
      inferInstanceAs (Decidable (_ ∨ _ ∧ _))

@[simp] theorem nil : Preceded q p [] := trivial

/-- Events that do not satisfy `p` may be appended. -/
theorem append (h : Preceded q p l) (hp : ∀ a ∈ l', ¬ p a) : Preceded q p (l ++ l') := by
  induction l with
  | nil =>
      induction l' with
      | nil => trivial
      | cons a l' ih =>
          exact .inr ⟨hp a List.mem_cons_self, ih fun b hb => hp b (List.mem_cons_of_mem a hb)⟩
  | cons a l ih =>
      obtain h | ⟨ha, h⟩ := h
      · exact .inl h
      · exact .inr ⟨ha, ih h⟩

/-- Once an event satisfies `q`, any events may be appended. -/
theorem appendAfter (h : Preceded q p l) (hq : ∃ b ∈ l, q b) : Preceded q p (l ++ l') := by
  induction l with
  | nil => exact nomatch hq
  | cons a l ih =>
      obtain h | ⟨ha, h⟩ := h
      · exact .inl h
      · obtain ⟨b, hb, hqb⟩ := hq
        obtain rfl | hb := List.mem_cons.mp hb
        · exact .inl hqb
        · exact .inr ⟨ha, ih h ⟨b, hb, hqb⟩⟩

end Preceded

end Transition
