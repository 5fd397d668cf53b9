import Mathlib.Logic.Relation

/-!
# Machines, runs and invariants

A `Machine` has a set of initial states and a partial step function.  An action
that a state does not enable steps to `none`.  Runs are the reflexive transitive
closure of the steps, so the rules of `Relation.ReflTransGen` apply to them.

Every notion takes a *guard*, a relation between a state and an action.  A
guarded run is a run all of whose steps satisfy the guard.  The guard that lets
every step through is `Any`, and a run guarded by it is an arbitrary run.  So
one induction, `Invariant.reachable`, serves statements about all runs and
statements about the runs that meet a condition.
-/

namespace Transition

universe u v

/-- The initial states and the partial step function. -/
structure Machine (σ : Type u) (α : Type v) where
  /-- The states a run may start in. -/
  init : σ → Prop
  /-- The state an action leads to, if the action is enabled. -/
  step : σ → α → Option σ

/-- The guard that lets every step through. -/
def Any {σ : Type u} {α : Type v} : σ → α → Prop := fun _ _ => True

namespace Machine

variable {σ : Type u} {α : Type v} (M : Machine σ α) {G H : σ → α → Prop}

/-- One step by an action the guard lets through. -/
def Next (G : σ → α → Prop) (s t : σ) : Prop := ∃ a, G s a ∧ M.step s a = some t

/-- A guarded run from one state to another. -/
abbrev Leads (G : σ → α → Prop) : σ → σ → Prop := Relation.ReflTransGen (M.Next G)

/-- A state some guarded run reaches from an initial state. -/
def Reachable (G : σ → α → Prop) (s : σ) : Prop := ∃ s₀, M.init s₀ ∧ M.Leads G s₀ s

/-- A predicate that holds initially and that every guarded step keeps. -/
structure Invariant (G : σ → α → Prop) (I : σ → Prop) : Prop where
  /-- It holds initially. -/
  init : ∀ s, M.init s → I s
  /-- A guarded step keeps it. -/
  step : ∀ s a t, I s → G s a → M.step s a = some t → I t

variable {M}

/-! ## Runs -/

/-- A run that starts with a given action. -/
theorem Leads.cons {s t u : σ} (a : α) (hG : G s a) (hs : M.step s a = some t)
    (h : M.Leads G t u) : M.Leads G s u :=
  Relation.ReflTransGen.head ⟨a, hG, hs⟩ h

theorem Leads.single {s t : σ} (a : α) (hG : G s a) (hs : M.step s a = some t) : M.Leads G s t :=
  Relation.ReflTransGen.single ⟨a, hG, hs⟩

theorem Leads.of_eq {s t : σ} (h : t = s) : M.Leads G s t := h ▸ .refl

/-! ## Induction over runs -/

/-- What every guarded step keeps, every guarded run keeps. -/
theorem Leads.keeps {I : σ → Prop}
    (hstep : ∀ s a t, I s → G s a → M.step s a = some t → I t)
    {s t : σ} (h : M.Leads G s t) (hs : I s) : I t := by
  induction h with
  | refl => exact hs
  | tail _ hn ih =>
      obtain ⟨a, hG, ha⟩ := hn
      exact hstep _ a _ ih hG ha

theorem Invariant.reachable {I : σ → Prop} (hI : M.Invariant G I) {s : σ}
    (h : M.Reachable G s) : I s := by
  obtain ⟨s₀, h₀, hs⟩ := h
  exact Leads.keeps hI.step hs (hI.init s₀ h₀)

/-- An invariant of all runs is an invariant of the guarded ones. -/
theorem Invariant.guard {I : σ → Prop} (hI : M.Invariant Any I) : M.Invariant G I where
  init := hI.init
  step s a t hs _ ht := hI.step s a t hs trivial ht

/-- An invariant may be proved under one that is already known. -/
theorem Invariant.under {I J : σ → Prop} (hJ : M.Invariant G J)
    (hinit : ∀ s, M.init s → I s)
    (hstep : ∀ s a t, J s → I s → G s a → M.step s a = some t → I t) :
    M.Invariant G (fun s => J s ∧ I s) where
  init s hs := ⟨hJ.init s hs, hinit s hs⟩
  step s a t h hG ht := ⟨hJ.step s a t h.1 hG ht, hstep s a t h.1 h.2 hG ht⟩

/-! ## Simulation -/

/-- When every guarded step is matched by a run of another machine, the states reached are
states the other machine reaches. -/
theorem Reachable.simulates {τ : Type*} {γ : Type*} {N : Machine τ γ} {I : σ → Prop} (f : σ → τ)
    (hI : M.Invariant G I) (hinit : ∀ s, M.init s → N.init (f s))
    (hstep : ∀ s a t, I s → G s a → M.step s a = some t → N.Leads Any (f s) (f t))
    {s : σ} (h : M.Reachable G s) : N.Reachable Any (f s) := by
  obtain ⟨s₀, h₀, hs⟩ := h
  have hboth : I s ∧ N.Leads Any (f s₀) (f s) := by
    refine Leads.keeps (I := fun t => I t ∧ N.Leads Any (f s₀) (f t)) ?_ hs
      ⟨hI.init s₀ h₀, .refl⟩
    intro t a u ht hG hu
    exact ⟨hI.step t a u ht.1 hG hu, ht.2.trans (hstep t a u ht.1 hG hu)⟩
  exact ⟨f s₀, hinit s₀ h₀, hboth.2⟩

/-! ## Runs given by a list of actions -/

/-- Take the actions of a list one after the other. -/
def run (M : Machine σ α) (s : σ) : List α → Option σ
  | [] => some s
  | a :: as => (M.step s a).bind fun t => M.run t as
termination_by structural as => as

@[simp] theorem run_cons (s : σ) (a : α) (as : List α) :
    M.run s (a :: as) = (M.step s a).bind fun t => M.run t as := rfl

/-- The guard lets the actions of a list through, where they are taken. -/
def Guarded (M : Machine σ α) (G : σ → α → Prop) (s : σ) : List α → Prop
  | [] => True
  | a :: as => G s a ∧ (M.step s a).elim True fun t => M.Guarded G t as
termination_by structural as => as

instance decidableGuarded [∀ s a, Decidable (G s a)] (s : σ) :
    (as : List α) → Decidable (M.Guarded G s as)
  | [] => .isTrue trivial
  | a :: as =>
      have : Decidable ((M.step s a).elim True fun t => M.Guarded G t as) :=
        match M.step s a with
        | none => .isTrue trivial
        | some t => decidableGuarded t as
      inferInstanceAs (Decidable (_ ∧ _))

theorem guarded_any (s : σ) (as : List α) : M.Guarded Any s as := by
  induction as generalizing s with
  | nil => trivial
  | cons a as ih =>
      refine ⟨trivial, ?_⟩
      cases M.step s a with
      | none => trivial
      | some t => exact ih t

theorem leads_of_guarded {as : List α} {s t : σ} (hG : M.Guarded G s as)
    (h : M.run s as = some t) : M.Leads G s t := by
  induction as generalizing s with
  | nil =>
      obtain rfl := Option.some.inj h
      exact .refl
  | cons a as ih =>
      rw [run_cons, Option.bind_eq_some_iff] at h
      obtain ⟨u, hu, ht⟩ := h
      obtain ⟨ha, has⟩ := hG
      rw [hu] at has
      exact Leads.cons a ha hu (ih has ht)

theorem reachable_of_guarded (as : List α) {s t : σ} (hs : M.init s) (hG : M.Guarded G s as)
    (h : M.run s as = some t) : M.Reachable G t :=
  ⟨s, hs, leads_of_guarded hG h⟩

theorem reachable_of_run (as : List α) {s t : σ} (hs : M.init s) (h : M.run s as = some t) :
    M.Reachable Any t :=
  reachable_of_guarded as hs (guarded_any s as) h

/-- A guarded run whose actions are all enabled reaches the state it computes. -/
theorem reachable_getD_of_guarded {as : List α} {s : σ} (hs : M.init s) (hG : M.Guarded G s as)
    (h : (M.run s as).isSome = true) (d : σ) : M.Reachable G ((M.run s as).getD d) := by
  obtain ⟨t, ht⟩ := Option.isSome_iff_exists.mp h
  rw [ht, Option.getD_some]
  exact reachable_of_guarded as hs hG ht

theorem reachable_getD {as : List α} {s : σ} (hs : M.init s) (h : (M.run s as).isSome = true)
    (d : σ) : M.Reachable Any ((M.run s as).getD d) :=
  reachable_getD_of_guarded hs (guarded_any s as) h d

end Machine

end Transition
