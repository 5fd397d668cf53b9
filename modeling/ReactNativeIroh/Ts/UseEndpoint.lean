import ReactNativeIroh.Lib.Effect
import ReactNativeIroh.Ts.IrohError

/-!
# The hook `useEndpoint`

Setting the effect up calls `Endpoint.create` and shows that an endpoint is being created.
The promise settles at some time, and the reaction to it comes later, when the run may
have been cleaned up.

An endpoint is an argument of the model, a number.  Every endpoint is closed exactly once:
by the cleanup when the reaction came before, and by the reaction otherwise.
-/

namespace Iroh

open Transition

inductive EndpointStatus where
  | creating
  | ready
  | error
deriving DecidableEq

structure UseEndpointResult where
  endpoint : Option ℕ
  status : EndpointStatus
  error : Option IrohError := none
deriving DecidableEq

/-- The promise of `Endpoint.create`, and whether the effect has reacted to it. -/
inductive Creation where
  | pending
  | settled (r : Except IrohError ℕ)
  | reacted (r : Except IrohError ℕ)

/-- One run of the effect, with the endpoints it has called `close` on. -/
structure EndpointEffect (ω : Type*) where
  options : ω
  cancelled : Bool := false
  created : Option ℕ := none
  creation : Creation := .pending
  closed : List ℕ := []

/-- The promise settles, or the effect reacts to it. -/
inductive CreationEvent where
  | settle (r : Except IrohError ℕ)
  | react

namespace EndpointEffect

variable {ω : Type*}

def setup (options : ω) (_ : UseEndpointResult) : EndpointEffect ω × UseEndpointResult :=
  ({ options }, { endpoint := none, status := .creating })

def handle (e : CreationEvent) (x : EndpointEffect ω) (result : UseEndpointResult) :
    Option (EndpointEffect ω × UseEndpointResult) :=
  match e, x.creation with
  | .settle r, .pending => some ({ x with creation := .settled r }, result)
  | .react, .settled (.ok endpoint) =>
      let x := { x with creation := .reacted (.ok endpoint) }
      if x.cancelled then some ({ x with closed := x.closed ++ [endpoint] }, result)
      else
        some ({ x with created := some endpoint },
          { endpoint := some endpoint, status := .ready })
  | .react, .settled (.error error) =>
      let x := { x with creation := .reacted (.error error) }
      if x.cancelled then some (x, result)
      else some (x, { endpoint := none, status := .error, error := some error })
  | _, _ => none

def cleanup (x : EndpointEffect ω) (result : UseEndpointResult) :
    EndpointEffect ω × UseEndpointResult :=
  ({ x with cancelled := true, closed := x.closed ++ x.created.toList }, result)

/-- The endpoint whose creation the effect has reacted to. -/
def endpoint (x : EndpointEffect ω) : Option ℕ :=
  match x.creation with
  | .reacted (.ok endpoint) => some endpoint
  | _ => none

/-- What the component shows of a run. -/
def shown (x : EndpointEffect ω) : UseEndpointResult :=
  match x.creation with
  | .reacted (.ok endpoint) => { endpoint := some endpoint, status := .ready }
  | .reacted (.error error) => { endpoint := none, status := .error, error := some error }
  | _ => { endpoint := none, status := .creating }

/-- The mounted run has closed nothing, and is what is shown. -/
structure Live (x : EndpointEffect ω) (result : UseEndpointResult) : Prop where
  active : x.cancelled = false
  created : x.created = x.endpoint
  closed : x.closed = []
  shown : result = x.shown

/-- A run that was cleaned up has closed its endpoint, once. -/
structure Stale (x : EndpointEffect ω) : Prop where
  cancelled : x.cancelled = true
  closed : x.closed = x.endpoint.toList

end EndpointEffect

/-- The state before the effect is set up. -/
def UseEndpointResult.initial : UseEndpointResult := { endpoint := none, status := .creating }

def useEndpoint (ω : Type*) : Effect ω (EndpointEffect ω) UseEndpointResult CreationEvent where
  setup := EndpointEffect.setup
  handle := EndpointEffect.handle
  cleanup := EndpointEffect.cleanup

namespace EndpointEffect

variable {ω : Type*}

variable {e : CreationEvent} {x x' : EndpointEffect ω} {result result' : UseEndpointResult}

theorem handle_live (h : Live x result) (hs : handle e x result = some (x', result')) :
    Live x' result' := by
  obtain ⟨hactive, hcreated, hclosed, hshown⟩ := h
  unfold handle at hs
  split at hs
  · next r hpending =>
    obtain ⟨rfl, rfl⟩ := Prod.mk.inj (Option.some.inj hs)
    refine ⟨hactive, ?_, hclosed, ?_⟩
    · exact hcreated.trans (by simp [endpoint, hpending])
    · exact hshown.trans (by simp [shown, hpending])
  · simp only [hactive, Bool.false_eq_true, if_false] at hs
    obtain ⟨rfl, rfl⟩ := Prod.mk.inj (Option.some.inj hs)
    exact ⟨rfl, rfl, hclosed, rfl⟩
  · next error hsettled =>
    simp only [hactive, Bool.false_eq_true, if_false] at hs
    obtain ⟨rfl, rfl⟩ := Prod.mk.inj (Option.some.inj hs)
    exact ⟨rfl, hcreated.trans (by simp [endpoint, hsettled]), hclosed, rfl⟩
  · cases hs

theorem handle_stale (h : Stale x) (hs : handle e x result = some (x', result')) :
    Stale x' ∧ result' = result := by
  obtain ⟨hcancelled, hclosed⟩ := h
  unfold handle at hs
  split at hs
  · next r hpending =>
    obtain ⟨rfl, rfl⟩ := Prod.mk.inj (Option.some.inj hs)
    exact ⟨⟨hcancelled, hclosed.trans (by simp [endpoint, hpending])⟩, rfl⟩
  · next e hsettled =>
    simp only [hcancelled, if_true] at hs
    obtain ⟨rfl, rfl⟩ := Prod.mk.inj (Option.some.inj hs)
    refine ⟨⟨rfl, ?_⟩, rfl⟩
    simp [hclosed, endpoint, hsettled]
  · next error hsettled =>
    simp only [hcancelled, if_true] at hs
    obtain ⟨rfl, rfl⟩ := Prod.mk.inj (Option.some.inj hs)
    exact ⟨⟨rfl, hclosed.trans (by simp [endpoint, hsettled])⟩, rfl⟩
  · cases hs

/-- The reaction to an endpoint that came too late closes it. -/
theorem Stale.react {i : ℕ} (h : Stale x) (hsettled : x.creation = .settled (.ok i))
    (result : UseEndpointResult) :
    ∃ x', handle .react x result = some (x', result) ∧ x'.closed = [i] := by
  obtain ⟨hcancelled, hclosed⟩ := h
  refine ⟨{ x with creation := .reacted (.ok i), closed := x.closed ++ [i] }, ?_, ?_⟩
  · simp [handle, hsettled, hcancelled]
  · simp [hclosed, endpoint, hsettled]

theorem sound : (useEndpoint ω).Sound Live Stale fun _ => True where
  setup _ _ _ := ⟨rfl, rfl, rfl, rfl⟩
  live _ _ _ _ _ h hs := handle_live h hs
  stale _ _ _ _ _ h hs := handle_stale h hs
  cleanup x _ h := by
    refine ⟨⟨rfl, ?_⟩, trivial⟩
    show x.closed ++ x.created.toList = x.endpoint.toList
    rw [h.closed, h.created, List.nil_append]

/-- What holds of a component that uses an endpoint, after any run of actions. -/
structure Law (as : List (EffectAction ω CreationEvent))
    (c : Component (EndpointEffect ω) UseEndpointResult) : Prop where
  /-- An endpoint that the component no longer uses was closed, once. -/
  closed : ∀ x ∈ c.past, x.closed = x.endpoint.toList
  /-- One whose creation has settled is closed by the reaction. -/
  closable : ∀ x ∈ c.past, ∀ e, x.creation = .settled (.ok e) →
    ∃ x', handle .react x c.view = some (x', c.view) ∧ x'.closed = [e]
  /-- The one it uses is open, and is the one it shows. -/
  shown : ∀ x ∈ c.current, x.closed = [] ∧ c.view = x.shown
  /-- Nothing that comes late is seen. -/
  undisturbed : ∃ d, ((useEndpoint ω).machine .initial).run { view := .initial }
    (as.filter fun a => !a.isLate) = some d ∧ Effect.Shows c d

theorem useEndpoint_law {as : List (EffectAction ω CreationEvent)}
    {c : Component (EndpointEffect ω) UseEndpointResult}
    (h : ((useEndpoint ω).machine .initial).run { view := .initial } as = some c) : Law as c := by
  have hinv : ((useEndpoint ω).machine .initial).Invariant Any
      (Effect.Holds Live Stale fun _ => True) := sound.invariant trivial
  have hholds := hinv.reachable (Machine.reachable_of_run as rfl h)
  refine ⟨fun x hx => (hholds.stale x hx).closed,
    fun x hx _ he => (hholds.stale x hx).react he c.view, fun x hx => ?_, ?_⟩
  · exact ⟨(hholds.live x hx).closed, (hholds.live x hx).shown⟩
  · exact sound.shows_run (hinv.init _ rfl) ⟨rfl, rfl⟩ h

/-- The effect is set up twice, and both promises settle after the first cleanup. -/
theorem useEndpoint_law_twice :
    ∃ c : Component (EndpointEffect Unit) UseEndpointResult,
      Law [.setup (), .cleanup, .setup (), .late 0 (.settle (.ok 1)),
        .callback (.settle (.ok 2)), .late 0 .react, .callback .react, .cleanup] c ∧
      c.past.map EndpointEffect.closed = [[1], [2]] :=
  ⟨_, useEndpoint_law rfl, rfl⟩

end EndpointEffect

end Iroh
