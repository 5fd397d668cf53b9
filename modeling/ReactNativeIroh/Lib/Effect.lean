import Mathlib.Data.List.Basic
import ReactNativeIroh.Lib.Machine

/-!
# Effects of a component

A mounted component has one run of its effect.  When the dependencies of the effect
change, and when the component unmounts, the run is cleaned up; then the effect may be run
again.  What a run has started goes on after that, so callbacks of runs that were cleaned
up come late, in any order and at any time.

All the runs write the one state of the component.  An effect is sound when its late
callbacks leave that state alone.  Then the state is at all times what the mounted run has
made of it: had no callback come late, the component would show the same.  So what it shows
is told by what the mounted run was set up with and by the callbacks it got (`mounted`).
-/

namespace Transition

variable {δ ρ ν ε : Type*}

/-- An effect: what setting it up, a callback and cleaning it up do to the run and to the
state of the component.  A callback that cannot come steps to `none`. -/
structure Effect (δ ρ ν ε : Type*) where
  setup : δ → ν → ρ × ν
  handle : ε → ρ → ν → Option (ρ × ν)
  cleanup : ρ → ν → ρ × ν

/-- A component: the runs that were cleaned up, the mounted one, and the state. -/
structure Component (ρ ν : Type*) where
  past : List ρ := []
  current : Option ρ := none
  view : ν

inductive EffectAction (δ ε : Type*) where
  | setup (d : δ)
  | callback (e : ε)
  /-- A callback of a run that was cleaned up. -/
  | late (i : ℕ) (e : ε)
  | cleanup

namespace EffectAction

def isLate : EffectAction δ ε → Bool
  | .late _ _ => true
  | _ => false

end EffectAction

namespace Effect

variable (E : Effect δ ρ ν ε)

def step (c : Component ρ ν) : EffectAction δ ε → Option (Component ρ ν)
  | .setup d =>
      match c.current with
      | none => some { c with current := some (E.setup d c.view).1, view := (E.setup d c.view).2 }
      | some _ => none
  | .callback e =>
      match c.current with
      | none => none
      | some r => (E.handle e r c.view).map fun p => { c with current := some p.1, view := p.2 }
  | .late i e =>
      match c.past[i]? with
      | none => none
      | some r =>
          (E.handle e r c.view).map fun p => { c with past := c.past.set i p.1, view := p.2 }
  | .cleanup =>
      match c.current with
      | none => none
      | some r =>
          some ⟨c.past ++ [(E.cleanup r c.view).1], none, (E.cleanup r c.view).2⟩

def machine (v₀ : ν) : Machine (Component ρ ν) (EffectAction δ ε) where
  init c := c = { view := v₀ }
  step := E.step

/-- The run that is mounted, those that are not, and the state without a mounted run. -/
structure Holds (Live : ρ → ν → Prop) (Stale : ρ → Prop) (Idle : ν → Prop)
    (c : Component ρ ν) : Prop where
  stale : ∀ r ∈ c.past, Stale r
  live : ∀ r ∈ c.current, Live r c.view
  idle : c.current = none → Idle c.view

/-- What each function of the effect has to keep.  A late callback keeps the state. -/
structure Sound (Live : ρ → ν → Prop) (Stale : ρ → Prop) (Idle : ν → Prop) : Prop where
  setup : ∀ d v, Idle v → Live (E.setup d v).1 (E.setup d v).2
  live : ∀ e r v r' v', Live r v → E.handle e r v = some (r', v') → Live r' v'
  stale : ∀ e r v r' v', Stale r → E.handle e r v = some (r', v') → Stale r' ∧ v' = v
  cleanup : ∀ r v, Live r v → Stale (E.cleanup r v).1 ∧ Idle (E.cleanup r v).2

variable {E} {Live : ρ → ν → Prop} {Stale : ρ → Prop} {Idle : ν → Prop} {v₀ : ν}
  {c c' d : Component ρ ν}

theorem Sound.step (hE : E.Sound Live Stale Idle) {a : EffectAction δ ε}
    (h : Holds Live Stale Idle c) (hs : E.step c a = some c') : Holds Live Stale Idle c' := by
  cases a with
  | setup d =>
      simp only [Effect.step] at hs
      split at hs
      · next hnone =>
        obtain rfl := Option.some.inj hs
        refine ⟨h.stale, fun r hr => ?_, fun hcurrent => nomatch hcurrent⟩
        obtain rfl := Option.some.inj hr
        exact hE.setup d c.view (h.idle hnone)
      · cases hs
  | callback e =>
      simp only [Effect.step] at hs
      split at hs
      · cases hs
      · next r hr =>
        obtain ⟨p, hp, rfl⟩ := Option.map_eq_some_iff.mp hs
        refine ⟨h.stale, fun r' hr' => ?_, fun hcurrent => nomatch hcurrent⟩
        obtain rfl := Option.some.inj hr'
        exact hE.live e r c.view p.1 p.2 (h.live r hr) hp
  | late i e =>
      simp only [Effect.step] at hs
      split at hs
      · cases hs
      · next r hr =>
        obtain ⟨p, hp, rfl⟩ := Option.map_eq_some_iff.mp hs
        obtain ⟨hstale, hview⟩ :=
          hE.stale e r c.view p.1 p.2 (h.stale r (List.mem_of_getElem? hr)) hp
        refine ⟨fun r' hr' => ?_, fun r' hr' => ?_, fun hcurrent => ?_⟩
        · rcases List.mem_or_eq_of_mem_set hr' with hr' | rfl
          · exact h.stale r' hr'
          · exact hstale
        · exact hview ▸ h.live r' hr'
        · exact hview ▸ h.idle hcurrent
  | cleanup =>
      simp only [Effect.step] at hs
      split at hs
      · cases hs
      · next r hr =>
        obtain rfl := Option.some.inj hs
        obtain ⟨hstale, hidle⟩ := hE.cleanup r c.view (h.live r hr)
        refine ⟨fun r' hr' => ?_, fun r' hr' => (nomatch hr'), fun _ => hidle⟩
        rcases List.mem_append.mp hr' with hr' | hr'
        · exact h.stale r' hr'
        · exact List.mem_singleton.mp hr' ▸ hstale

theorem Sound.invariant (hE : E.Sound Live Stale Idle) (hv : Idle v₀) :
    (E.machine v₀).Invariant Any (Holds Live Stale Idle) where
  init c hc := by
    obtain rfl := hc
    exact ⟨fun r hr => absurd hr List.not_mem_nil, fun r hr => (nomatch hr), fun _ => hv⟩
  step _ _ _ hc _ hs := hE.step hc hs

/-! ## Late callbacks are not seen -/

/-- The components show the same: they have the same mounted run and the same state. -/
def Shows (c d : Component ρ ν) : Prop := c.current = d.current ∧ c.view = d.view

/-- A late callback is not seen, and any other action is taken alike. -/
theorem Sound.shows_step (hE : E.Sound Live Stale Idle) {a : EffectAction δ ε}
    (h : Holds Live Stale Idle c) (hshows : Shows c d) (hs : E.step c a = some c') :
    if a.isLate then Shows c' d else ∃ d', E.step d a = some d' ∧ Shows c' d' := by
  obtain ⟨hcurrent, hview⟩ := hshows
  cases a with
  | setup d' =>
      simp only [Effect.step] at hs ⊢
      rw [← hcurrent, ← hview]
      split at hs
      · obtain rfl := Option.some.inj hs
        exact ⟨_, rfl, rfl, rfl⟩
      · cases hs
  | callback e =>
      simp only [Effect.step] at hs ⊢
      rw [← hcurrent, ← hview]
      split at hs
      · cases hs
      · obtain ⟨p, hp, rfl⟩ := Option.map_eq_some_iff.mp hs
        exact ⟨_, congrArg _ hp, rfl, rfl⟩
  | late i e =>
      simp only [Effect.step] at hs
      split at hs
      · cases hs
      · next r hr =>
        obtain ⟨p, hp, rfl⟩ := Option.map_eq_some_iff.mp hs
        have hsame := (hE.stale e r c.view p.1 p.2 (h.stale r (List.mem_of_getElem? hr)) hp).2
        exact ⟨hcurrent, hsame.trans hview⟩
  | cleanup =>
      simp only [Effect.step] at hs ⊢
      rw [← hcurrent, ← hview]
      split at hs
      · cases hs
      · obtain rfl := Option.some.inj hs
        exact ⟨_, rfl, rfl, rfl⟩

/-- Without the late callbacks the component shows the same. -/
theorem Sound.shows_run (hE : E.Sound Live Stale Idle) {as : List (EffectAction δ ε)}
    (h : Holds Live Stale Idle c) (hshows : Shows c d)
    (hrun : (E.machine v₀).run c as = some c') :
    ∃ d', (E.machine v₀).run d (as.filter fun a => !a.isLate) = some d' ∧ Shows c' d' := by
  induction as generalizing c d with
  | nil => exact ⟨d, rfl, Option.some.inj hrun ▸ hshows⟩
  | cons a as ih =>
      rw [Machine.run_cons, Option.bind_eq_some_iff] at hrun
      obtain ⟨c₁, hc₁, hrest⟩ := hrun
      have hstep := hE.shows_step h hshows hc₁
      have hnext := hE.step h hc₁
      cases hlate : a.isLate with
      | true =>
          rw [if_pos hlate] at hstep
          rw [List.filter_cons_of_neg (by simp [hlate])]
          exact ih hnext hstep hrest
      | false =>
          rw [if_neg (by simp [hlate])] at hstep
          obtain ⟨d₁, hd₁, hshows₁⟩ := hstep
          rw [List.filter_cons_of_pos (by simp [hlate])]
          obtain ⟨d', hd', hshows'⟩ := ih hnext hshows₁ hrest
          refine ⟨d', ?_, hshows'⟩
          rw [Machine.run_cons, Option.bind_eq_some_iff]
          exact ⟨d₁, hd₁, hd'⟩

/-! ## What the mounted run was told -/

/-- What the mounted run was set up with and the callbacks it got, after another action. -/
def told (m : Option (δ × List ε)) : EffectAction δ ε → Option (δ × List ε)
  | .setup d => some (d, [])
  | .callback e => m.map fun p => (p.1, p.2 ++ [e])
  | .late _ _ => m
  | .cleanup => none

/-- What the run that is mounted after some actions was set up with, and the callbacks it got. -/
def mounted (as : List (EffectAction δ ε)) : Option (δ × List ε) := as.foldl told none

/-- What each function of the effect has to keep of what a run was told. -/
structure Follows (E : Effect δ ρ ν ε) (Idle : ν → Prop) (Told : δ → List ε → ρ → ν → Prop) :
    Prop where
  setup : ∀ d v, Idle v → Told d [] (E.setup d v).1 (E.setup d v).2
  live : ∀ d es e r v r' v', Told d es r v → E.handle e r v = some (r', v') →
    Told d (es ++ [e]) r' v'

/-- There is a mounted run where there is one told of, and it is as told. -/
def Told (T : δ → List ε → ρ → ν → Prop) (m : Option (δ × List ε)) (c : Component ρ ν) : Prop :=
  Option.Rel (fun p r => T p.1 p.2 r c.view) m c.current

variable {T : δ → List ε → ρ → ν → Prop} {m : Option (δ × List ε)}

theorem Sound.told_step (hE : E.Sound Live Stale Idle) (hT : E.Follows Idle T)
    {a : EffectAction δ ε} (h : Holds Live Stale Idle c) (htold : Told T m c)
    (hs : E.step c a = some c') : Told T (told m a) c' := by
  unfold Told at htold ⊢
  cases a with
  | setup d =>
      simp only [Effect.step] at hs
      split at hs
      · next hnone =>
        obtain rfl := Option.some.inj hs
        exact .some (hT.setup d c.view (h.idle hnone))
      · cases hs
  | callback e =>
      simp only [Effect.step] at hs
      split at hs
      · cases hs
      · next r hr =>
        obtain ⟨p, hp, rfl⟩ := Option.map_eq_some_iff.mp hs
        rw [hr] at htold
        cases htold with
        | some hrun => exact .some (hT.live _ _ e r c.view p.1 p.2 hrun hp)
  | late i e =>
      simp only [Effect.step] at hs
      split at hs
      · cases hs
      · next r hr =>
        obtain ⟨p, hp, rfl⟩ := Option.map_eq_some_iff.mp hs
        have hview := (hE.stale e r c.view p.1 p.2 (h.stale r (List.mem_of_getElem? hr)) hp).2
        rw [hview]
        exact htold
  | cleanup =>
      simp only [Effect.step] at hs
      split at hs
      · cases hs
      · obtain rfl := Option.some.inj hs
        exact .none

theorem Sound.told_run (hE : E.Sound Live Stale Idle) (hT : E.Follows Idle T)
    {as : List (EffectAction δ ε)} (h : Holds Live Stale Idle c) (htold : Told T m c)
    (hrun : (E.machine v₀).run c as = some c') : Told T (as.foldl told m) c' := by
  induction as generalizing c m with
  | nil => exact Option.some.inj hrun ▸ htold
  | cons a as ih =>
      rw [Machine.run_cons, Option.bind_eq_some_iff] at hrun
      obtain ⟨c₁, hc₁, hrest⟩ := hrun
      exact ih (hE.step h hc₁) (hE.told_step hT h htold hc₁) hrest

/-- The component has a mounted run when the actions say so, and that is as they say. -/
theorem Sound.told (hE : E.Sound Live Stale Idle) (hT : E.Follows Idle T) (hv : Idle v₀)
    {as : List (EffectAction δ ε)} (h : (E.machine v₀).run { view := v₀ } as = some c) :
    Told T (mounted as) c :=
  hE.told_run hT ((hE.invariant hv).init _ rfl) .none h

end Effect

end Transition
