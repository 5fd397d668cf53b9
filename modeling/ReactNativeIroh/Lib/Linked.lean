import ReactNativeIroh.Lib.Machine

/-!
# Linked machines

Two machines that take steps in any order, where a step of the second may depend on the
state of the first: a sender and a receiver, and the line between them.  What a state of
the pair reaches, its parts reach on their own (`reachable_parts`); so what holds of every run
of a part holds of it in the pair.
-/

namespace Transition.Machine

universe u v

variable {σ : Type u} {τ : Type u} {α : Type v} {β : Type v} {M : Machine σ α} {N : Machine τ β}
  {G : σ → α → Prop}

theorem Reachable.tail {s t : σ} (h : M.Reachable G s) (a : α) (hG : G s a)
    (hs : M.step s a = some t) : M.Reachable G t := by
  obtain ⟨s₀, h₀, hl⟩ := h
  exact ⟨s₀, h₀, hl.tail ⟨a, hG, hs⟩⟩

/-- The second machine takes a step only if the first is in a state that allows it. -/
def link (M : Machine σ α) (N : Machine τ β) (C : σ → β → τ → Prop)
    [∀ s b t, Decidable (C s b t)] : Machine (σ × τ) (α ⊕ β) where
  init p := M.init p.1 ∧ N.init p.2
  step p
    | .inl a => (M.step p.1 a).map fun s => (s, p.2)
    | .inr b => if C p.1 b p.2 then (N.step p.2 b).map fun t => (p.1, t) else none

/-- A guard of the first machine. -/
def Left (τ : Type u) (β : Type v) (G : σ → α → Prop) (p : σ × τ) : α ⊕ β → Prop
  | .inl a => G p.1 a
  | .inr _ => True

instance (G : σ → α → Prop) [∀ s a, Decidable (G s a)] (p : σ × τ) :
    (c : α ⊕ β) → Decidable (Left τ β G p c)
  | .inl a => inferInstanceAs (Decidable (G p.1 a))
  | .inr _ => .isTrue trivial

/-- What a step of the pair can be. -/
inductive LinkSteps (M : Machine σ α) (N : Machine τ β) (C : σ → β → τ → Prop)
    (G : σ → α → Prop) : σ × τ → σ × τ → Prop where
  | left {s s' : σ} {t : τ} (a : α) : G s a → M.step s a = some s' →
      LinkSteps M N C G (s, t) (s', t)
  | right {s : σ} {t t' : τ} (b : β) : C s b t → N.step t b = some t' →
      LinkSteps M N C G (s, t) (s, t')

variable {C : σ → β → τ → Prop} [∀ s b t, Decidable (C s b t)] {p q : σ × τ}

theorem linkSteps {c : α ⊕ β} (hG : Left τ β G p c) (h : (M.link N C).step p c = some q) :
    LinkSteps M N C G p q := by
  obtain ⟨s, t⟩ := p
  cases c with
  | inl a =>
      obtain ⟨s', hs, rfl⟩ := Option.map_eq_some_iff.mp h
      exact .left a hG hs
  | inr b =>
      obtain ⟨hC, ht⟩ := Option.ite_none_right_eq_some.mp h
      obtain ⟨t', hstep, rfl⟩ := Option.map_eq_some_iff.mp ht
      exact .right b hC hstep

/-- The parts of the pair run on their own. -/
theorem reachable_parts (h : (M.link N C).Reachable (Left τ β G) p) :
    M.Reachable G p.1 ∧ N.Reachable Any p.2 := by
  obtain ⟨p₀, h₀, hp⟩ := h
  refine Leads.keeps (I := fun p => M.Reachable G p.1 ∧ N.Reachable Any p.2)
    (fun p c q hI hG hq => ?_) hp ⟨⟨p₀.1, h₀.1, .refl⟩, ⟨p₀.2, h₀.2, .refl⟩⟩
  cases linkSteps hG hq with
  | left a ha hs => exact ⟨hI.1.tail a ha hs, hI.2⟩
  | right b _ ht => exact ⟨hI.1, hI.2.tail b trivial ht⟩

/-- What holds of the pair, given what holds of its parts. -/
theorem link_reachable {I : σ × τ → Prop} (hinit : ∀ s t, M.init s → N.init t → I (s, t))
    (hleft : ∀ s s' t a, M.Reachable G s → N.Reachable Any t → I (s, t) → G s a →
      M.step s a = some s' → I (s', t))
    (hright : ∀ s t t' b, M.Reachable G s → N.Reachable Any t → I (s, t) → C s b t →
      N.step t b = some t' → I (s, t'))
    (h : (M.link N C).Reachable (Left τ β G) p) : I p := by
  obtain ⟨p₀, h₀, hp⟩ := h
  have hall : (M.Reachable G p.1 ∧ N.Reachable Any p.2) ∧ I p := by
    refine Leads.keeps (I := fun p => (M.Reachable G p.1 ∧ N.Reachable Any p.2) ∧ I p)
      (fun p c q hI hG hq => ?_) hp
      ⟨⟨⟨p₀.1, h₀.1, .refl⟩, ⟨p₀.2, h₀.2, .refl⟩⟩, hinit p₀.1 p₀.2 h₀.1 h₀.2⟩
    cases linkSteps hG hq with
    | left a ha hs => exact ⟨⟨hI.1.1.tail a ha hs, hI.1.2⟩, hleft _ _ _ a hI.1.1 hI.1.2 hI.2 ha hs⟩
    | right b hC ht =>
        exact ⟨⟨hI.1.1, hI.1.2.tail b trivial ht⟩, hright _ _ _ b hI.1.1 hI.1.2 hI.2 hC ht⟩
  exact hall.2

end Transition.Machine
